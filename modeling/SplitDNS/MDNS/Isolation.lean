import Mathlib.Data.List.MinMax
import SplitDNS.MDNS.Provenance

/-! # Isolation of the trusted store

The trusted store is changed by strong announcements and by the expiry alone,
and making room in it looks at nothing but the store. A run therefore leaves it
as the same run without the other announcements does. The order in which the
hosts are visited for an eviction does not matter, as long as no two of them
were announced at the same time.
-/

namespace SplitDNS.MDNS

open Go Go.Netip

section Oldest

variable {V : Type} {seen : V → Time} {l l' : List (Sigma fun _ : Str => V)}

theorem foldl_oldest {T : Type} [LinearOrder T] {time : V → T} {t₀ : T}
    (hkeys : ∀ p ∈ l, p.1 ≠ []) :
    l.foldl (fun (acc : Str × T) p =>
      if acc.1 = [] || time p.2 < acc.2 then (p.1, time p.2) else acc) ([], t₀) =
      ((l.argmin fun p => time p.2).map fun p => (p.1, time p.2)).getD ([], t₀) := by
  induction l using List.reverseRecOn with
  | nil => rfl
  | append_singleton l x ih =>
    rw [List.foldl_append, ih fun p hp => hkeys p (List.mem_append_left _ hp), List.argmin_concat]
    rcases hbest : l.argmin fun p => time p.2 with _ | p
    · rw [hbest]
      simp
    · have hne := hkeys p (List.mem_append_left _ (List.argmin_mem hbest))
      rw [hbest]
      by_cases hlt : time x.2 < time p.2 <;> simp [hlt, hne]

theorem oldestKey_spec (hl : l ≠ []) (hkeys : ∀ p ∈ l, p.1 ≠ []) :
    ∃ p ∈ l, oldestKey seen l = p.1 ∧ ∀ q ∈ l, seen p.2 ≤ seen q.2 := by
  have hkey : oldestKey seen l =
      (((l.argmin fun p => seen p.2).map fun p => (p.1, seen p.2)).getD ([], 0)).1 :=
    congrArg Prod.fst (foldl_oldest hkeys)
  rcases hbest : l.argmin fun p => seen p.2 with _ | p
  · exact absurd (List.argmin_eq_none.mp hbest) hl
  · refine ⟨p, List.argmin_mem hbest, ?_, fun q hq => ?_⟩
    · rw [hkey, hbest]
      rfl
    · have hle := List.le_of_mem_argmin hq hbest
      exact hle

theorem oldestKey_eq_of_perm (hperm : l.Perm l') (hkeys : ∀ p ∈ l, p.1 ≠ [])
    (hinj : ∀ p ∈ l, ∀ q ∈ l, seen p.2 = seen q.2 → p.1 = q.1) :
    oldestKey seen l = oldestKey seen l' := by
  by_cases hl : l = []
  · subst hl
    rw [List.nil_perm.mp hperm]
  · have hl' : l' ≠ [] := fun h => hl (List.perm_nil.mp (h ▸ hperm))
    obtain ⟨p, hp, hkey, hmin⟩ := @oldestKey_spec V seen l hl hkeys
    obtain ⟨q, hq, hkey', hmin'⟩ :=
      @oldestKey_spec V seen l' hl' fun p hp => hkeys p (hperm.mem_iff.mpr hp)
    rw [hkey, hkey']
    refine hinj p hp q (hperm.mem_iff.mpr hq) (le_antisymm ?_ ?_)
    · exact hmin q (hperm.mem_iff.mpr hq)
    · exact hmin' p (hperm.mem_iff.mp hp)

end Oldest

namespace Event

def announcedAt : Event → Option Time
  | apply _ now _ _ => some now
  | expire _ _ => none

/-- The event is not an announcement below the strong tier. -/
def concernsTrusted : Event → Bool
  | apply _ _ trust _ => trust.isStrong
  | expire _ _ => true

inductive SameCall : Event → Event → Prop
  | apply (a : Announcement) (now : Time) (trust : Trust) (ord ord' : Order) :
    SameCall (apply a now trust ord) (apply a now trust ord')
  | expire (now : Time) (ord ord' : RangeOrder Str Entry) :
    SameCall (expire now ord) (expire now ord')

end Event

namespace Cache

variable {c c' : Cache} {a : Announcement} {now : Time} {trust : Trust} {times : List Time}
  {ord ord' : RangeOrder Str TrustedEntry} {h : Str} {te : TrustedEntry}

/-- The two caches have the same trusted store and the same bounds on it. -/
structure SameTrusted (c c' : Cache) : Prop where
  grace : c.trustedGrace = c'.trustedGrace
  bound : c.maxTrusted = c'.maxTrusted
  lookup : ∀ h, c.trusted.lookup h = c'.trusted.lookup h

/-- The trusted hosts have names, and each was seen at a time of its own. -/
structure Dated (times : List Time) (c : Cache) : Prop where
  named : ∀ h te, c.trusted.lookup h = some te → h ≠ []
  seen_mem : ∀ h te, c.trusted.lookup h = some te → te.seen ∈ times
  seen_inj : ∀ h te h' te', c.trusted.lookup h = some te → c.trusted.lookup h' = some te' →
    te.seen = te'.seen → h = h'

theorem SameTrusted.perm (hs : SameTrusted c c') : c.trusted.entries.Perm c'.trusted.entries :=
  List.lookup_ext c.trusted.nodupKeys c'.trusted.nodupKeys fun h te => by
    rw [← AList.lookup, ← AList.lookup, hs.lookup]

theorem lookup_evictOldestTrusted (hs : SameTrusted c c') (hd : Dated times c) (h : Str) :
    (evictOldestTrustedLocked c.trusted ord).lookup h =
      (evictOldestTrustedLocked c'.trusted ord').lookup h := by
  have hvisit : (ord.visit c.trusted).Perm (ord'.visit c'.trusted) :=
    (ord.perm _).trans (hs.perm.trans (ord'.perm _).symm)
  have hmem : ∀ p ∈ ord.visit c.trusted, c.trusted.lookup p.1 = some p.2 := fun p hp =>
    Map.lookup_eq_some_iff_mem_entries.mpr ((ord.perm _).mem_iff.mp hp)
  have hvictim : oldestKey TrustedEntry.seen (ord.visit c.trusted) =
      oldestKey TrustedEntry.seen (ord'.visit c'.trusted) :=
    oldestKey_eq_of_perm hvisit (fun p hp => hd.named _ _ (hmem p hp))
      fun p hp q hq => hd.seen_inj _ _ _ _ (hmem p hp) (hmem q hq)
  rw [evictOldestTrustedLocked, evictOldestTrustedLocked, hvictim]
  split_ifs with hv
  · rcases eq_or_ne h (oldestKey TrustedEntry.seen (ord'.visit c'.trusted)) with rfl | hne
    · rw [AList.lookup_erase, AList.lookup_erase]
    · rw [AList.lookup_erase_ne hne, AList.lookup_erase_ne hne, hs.lookup]
  · exact hs.lookup h

theorem lookup_of_evictOldestTrusted {m : Map Str TrustedEntry}
    (hl : (evictOldestTrustedLocked m ord).lookup h = some te) : m.lookup h = some te := by
  rw [evictOldestTrustedLocked] at hl
  split_ifs at hl
  · exact (Map.lookup_erase_eq_some hl).2
  · exact hl

/-- The trusted store with room for the announced host. -/
def trustedRoom (c : Cache) (a : Announcement) (ord : RangeOrder Str TrustedEntry) :
    Map Str TrustedEntry :=
  if a.host ∉ c.trusted ∧ 0 < c.maxTrusted ∧ c.maxTrusted ≤ c.trusted.entries.length then
    evictOldestTrustedLocked c.trusted ord
  else c.trusted

/-- The announced host's trusted addresses after a strong announcement. -/
def trustedAfter (c : Cache) (a : Announcement) (now : Time) : KeySet Addr :=
  match c.trusted.lookup a.host with
  | some te => foldAddrs te.addrs te.seen now a.addrs
  | none => insertAll ∅ a.addrs

theorem applyTrusted_withdrawal (hz : a.ttl = 0) (h : Str) :
    (c.applyTrustedLocked a now ord).1.lookup h =
      if h = a.host then none else c.trusted.lookup h := by
  unfold applyTrustedLocked
  rw [if_pos hz]
  rcases eq_or_ne h a.host with rfl | hne
  · rw [if_pos rfl]
    split_ifs with hm
    · exact AList.lookup_erase _ _
    · exact AList.lookup_eq_none.mpr hm
  · rw [if_neg hne]
    split_ifs
    · exact AList.lookup_erase_ne hne
    · rfl

theorem applyTrusted_announcement (hz : a.ttl ≠ 0) :
    (c.applyTrustedLocked a now ord).1 =
      (c.trustedRoom a ord).insert a.host ⟨c.trustedAfter a now, now⟩ := by
  unfold applyTrustedLocked trustedRoom trustedAfter
  rw [if_neg hz]
  rcases hl : c.trusted.lookup a.host with _ | te
  · have hnot := AList.lookup_eq_none.mp hl
    simp [hnot]
  · simp [Map.mem_of_lookup hl]

theorem lookup_applyTrusted (hl : (c.applyTrustedLocked a now ord).1.lookup h = some te) :
    (h = a.host ∧ te = ⟨c.trustedAfter a now, now⟩) ∨
      (h ≠ a.host ∧ c.trusted.lookup h = some te) := by
  by_cases hz : a.ttl = 0
  · rw [applyTrusted_withdrawal hz] at hl
    split_ifs at hl with hh
    exact Or.inr ⟨hh, hl⟩
  · rw [applyTrusted_announcement hz, Map.lookup_insert_eq_ite] at hl
    split_ifs at hl with hh
    · cases hl
      exact Or.inl ⟨hh, rfl⟩
    · rw [trustedRoom] at hl
      split_ifs at hl
      · exact Or.inr ⟨hh, lookup_of_evictOldestTrusted hl⟩
      · exact Or.inr ⟨hh, hl⟩

theorem lookup_applyTrusted_congr (hs : SameTrusted c c') (hd : Dated times c) (h : Str) :
    (c.applyTrustedLocked a now ord).1.lookup h =
      (c'.applyTrustedLocked a now ord').1.lookup h := by
  by_cases hz : a.ttl = 0
  · rw [applyTrusted_withdrawal hz, applyTrusted_withdrawal hz, hs.lookup]
  · have hmem : a.host ∈ c.trusted ↔ a.host ∈ c'.trusted := by
      rw [← AList.lookup_isSome, ← AList.lookup_isSome, hs.lookup]
    have haddrs : c.trustedAfter a now = c'.trustedAfter a now := by
      rw [trustedAfter, trustedAfter, hs.lookup]
    have hroom : (c.trustedRoom a ord).lookup h = (c'.trustedRoom a ord').lookup h := by
      simp only [trustedRoom, hmem, hs.bound, hs.perm.length_eq]
      split_ifs
      · exact lookup_evictOldestTrusted hs hd h
      · exact hs.lookup h
    rw [applyTrusted_announcement hz, applyTrusted_announcement hz, Map.lookup_insert_eq_ite,
      Map.lookup_insert_eq_ite, haddrs, hroom]

theorem lookup_expireTrusted (h : Str) :
    (c.expireTrustedLocked now).lookup h =
      if c.trustedGrace ≤ 0 then c.trusted.lookup h
      else (c.trusted.lookup h).filter fun te => !(c.trustedGrace < now - te.seen) := by
  unfold expireTrustedLocked
  split_ifs
  · rfl
  · exact Map.lookup_deleteIf c.trusted (fun _ te => c.trustedGrace < now - te.seen) h

theorem apply_trusted (c : Cache) (a : Announcement) (now : Time) (trust : Trust) (ord : Order) :
    (c.apply a now trust ord).cache.trusted =
      if (!(a.host = [] || a.addrs = []) && trust.isStrong) = true then
        (c.applyTrustedLocked a now ord.trusted).1
      else c.trusted := by
  unfold apply
  by_cases hskip : (a.host = [] || a.addrs = []) = true
  · simp only [hskip, if_true, Bool.not_true, Bool.false_and, Bool.false_eq_true, if_false]
  · simp only [hskip, Bool.not_false, Bool.true_and, Bool.false_eq_true, if_false]
    split_ifs <;> rfl

theorem apply_settings (c : Cache) (a : Announcement) (now : Time) (trust : Trust) (ord : Order) :
    (c.apply a now trust ord).cache.trustedGrace = c.trustedGrace ∧
      (c.apply a now trust ord).cache.maxTrusted = c.maxTrusted := by
  unfold apply
  split_ifs <;> exact ⟨rfl, rfl⟩

theorem step_dated (ev : Event) (hd : Dated times c) (hnew : ∀ t ∈ ev.announcedAt, t ∉ times) :
    Dated (times ++ ev.announcedAt.toList) (c.step ev) := by
  -- every trusted host after the step is the announced one, seen now, or as it was
  have hcases : ∀ h te, (c.step ev).trusted.lookup h = some te →
      (h ≠ [] ∧ te.seen ∈ ev.announcedAt ∧ ∀ h' te', (c.step ev).trusted.lookup h' = some te' →
        h' = h ∨ c.trusted.lookup h' = some te') ∨ c.trusted.lookup h = some te := by
    intro h te hl
    cases ev with
    | expire now ord =>
      change (c.expireTrustedLocked now).lookup h = some te at hl
      rw [lookup_expireTrusted] at hl
      split_ifs at hl
      · exact Or.inr hl
      · exact Or.inr (Option.filter_eq_some_iff.mp hl).1
    | apply a now trust ord =>
      have happ := apply_trusted c a now trust ord
      change (c.apply a now trust ord).cache.trusted.lookup h = some te at hl
      by_cases hon : (!(a.host = [] || a.addrs = []) && trust.isStrong) = true
      · rw [if_pos hon] at happ
        rw [happ] at hl
        rcases lookup_applyTrusted hl with ⟨rfl, rfl⟩ | ⟨-, hold⟩
        · refine Or.inl ⟨by simp_all, rfl, fun h' te' hl' => ?_⟩
          change (c.apply a now trust ord).cache.trusted.lookup h' = some te' at hl'
          rw [happ] at hl'
          exact (lookup_applyTrusted hl').imp And.left And.right
        · exact Or.inr hold
      · rw [happ, if_neg hon] at hl
        exact Or.inr hl
  constructor
  · intro h te hl
    rcases hcases h te hl with ⟨hh, -⟩ | hold
    · exact hh
    · exact hd.named h te hold
  · intro h te hl
    rcases hcases h te hl with ⟨-, hnow, -⟩ | hold
    · exact List.mem_append_right _ (Option.mem_toList.mpr hnow)
    · exact List.mem_append_left _ (hd.seen_mem h te hold)
  · intro h te h' te' hl hl' hseen
    rcases hcases h te hl with ⟨-, hnow, hothers⟩ | hold
    · rcases hothers h' te' hl' with rfl | hold'
      · rfl
      · exact absurd (hseen ▸ hd.seen_mem h' te' hold') (hnew _ hnow)
    · rcases hcases h' te' hl' with ⟨-, hnow, hothers⟩ | hold'
      · rcases hothers h te hl with rfl | -
        · rfl
        · exact absurd (hseen ▸ hd.seen_mem h te hold) (hnew _ hnow)
      · exact hd.seen_inj h te h' te' hold hold' hseen

theorem step_sameTrusted {ev ev' : Event} (hev : ev.SameCall ev') (hs : SameTrusted c c')
    (hd : Dated times c) : SameTrusted (c.step ev) (c'.step ev') := by
  cases hev with
  | apply a now trust ord ord' =>
    have hset := apply_settings c a now trust ord
    have hset' := apply_settings c' a now trust ord'
    refine ⟨hset.1.trans (hs.grace.trans hset'.1.symm), hset.2.trans (hs.bound.trans hset'.2.symm),
      fun h => ?_⟩
    change (c.apply a now trust ord).cache.trusted.lookup h =
      (c'.apply a now trust ord').cache.trusted.lookup h
    rw [apply_trusted, apply_trusted]
    split_ifs
    · exact lookup_applyTrusted_congr hs hd h
    · exact hs.lookup h
  | expire now ord ord' =>
    refine ⟨hs.grace, hs.bound, fun h => ?_⟩
    change (c.expireTrustedLocked now).lookup h = (c'.expireTrustedLocked now).lookup h
    rw [lookup_expireTrusted, lookup_expireTrusted, hs.grace, hs.lookup]

theorem step_sameTrusted_of_weak {ev : Event} (hev : ev.concernsTrusted = false)
    (hs : SameTrusted c c') : SameTrusted (c.step ev) c' := by
  cases ev with
  | expire now ord => cases hev
  | apply a now trust ord =>
    have hset := apply_settings c a now trust ord
    refine ⟨hset.1.trans hs.grace, hset.2.trans hs.bound, fun h => ?_⟩
    have hweak : trust.isStrong = false := hev
    change (c.apply a now trust ord).cache.trusted.lookup h = c'.trusted.lookup h
    rw [apply_trusted, hweak, Bool.and_false, if_neg Bool.false_ne_true]
    exact hs.lookup h

theorem foldl_sameTrusted {es es' : List Event} (hs : SameTrusted c c') (hd : Dated times c)
    (htimes : (times ++ es.filterMap Event.announcedAt).Nodup)
    (hdel : List.Forall₂ Event.SameCall (es.filter Event.concernsTrusted) es') :
    SameTrusted (es.foldl step c) (es'.foldl step c') := by
  induction es generalizing c c' times es' with
  | nil =>
    cases hdel
    exact hs
  | cons ev es ih =>
    have hsplit : (ev :: es).filterMap Event.announcedAt =
        ev.announcedAt.toList ++ es.filterMap Event.announcedAt := by
      cases ev <;> rfl
    rw [hsplit, ← List.append_assoc] at htimes
    have hnew : ∀ t ∈ ev.announcedAt, t ∉ times := fun t ht hmem =>
      List.disjoint_of_nodup_append (List.Nodup.of_append_left htimes) hmem
        (Option.mem_toList.mpr ht)
    have hd' := step_dated ev hd hnew
    cases hkeep : ev.concernsTrusted with
    | true =>
      rw [List.filter_cons_of_pos hkeep] at hdel
      cases hdel with
      | cons hev hdel =>
        rw [List.foldl_cons, List.foldl_cons]
        exact ih (step_sameTrusted hev hs hd) hd' htimes hdel
    | false =>
      rw [List.filter_cons_of_neg (by simp [hkeep])] at hdel
      exact ih (step_sameTrusted_of_weak hkeep hs) hd' htimes hdel

/-- The trusted store after a run is the one after the run without the announcements below the
strong tier, in whatever orders the two runs visit the hosts. -/
theorem trusted_isolated (sg gg tg : Duration) (mt : ℤ) (es es' : List Event)
    (htimes : (es.filterMap Event.announcedAt).Nodup)
    (hdel : List.Forall₂ Event.SameCall (es.filter Event.concernsTrusted) es') (h : Str) :
    (es.foldl step (empty sg gg tg mt)).trusted.lookup h =
      (es'.foldl step (empty sg gg tg mt)).trusted.lookup h := by
  have hd : Dated [] (empty sg gg tg mt) := by constructor <;> simp [empty]
  exact (foldl_sameTrusted ⟨rfl, rfl, fun _ => rfl⟩ hd htimes hdel).lookup h

/-- A forged goodbye and a forged address do not move the strong allocation of a host. -/
theorem trusted_isolated_forged : ∃ te,
    ([.apply ⟨"nas".toList, [.v4 0x0a000005], 120⟩ 0 .strong {},
      .apply ⟨"nas".toList, [.v4 0x0a000042], 120⟩ second .weak {},
      .apply ⟨"nas".toList, [.v4 0x0a000005], 0⟩ (2 * second) .none {},
      .expire (3 * second) default].foldl step (empty 0 0 0 1024)).trusted.lookup "nas".toList =
        some te ∧ sortAddrs te.addrs = [.v4 0x0a000005] ∧ te.seen = 0 := by
  rw [trusted_isolated 0 0 0 1024 _ [.apply ⟨"nas".toList, [.v4 0x0a000005], 120⟩ 0 .strong {},
    .expire (3 * second) default] (by decide)
    (.cons (.apply _ _ _ _ _) (.cons (.expire _ _ _) .nil))]
  exact ⟨⟨insertAll ∅ [.v4 0x0a000005], 0⟩, rfl, by decide, rfl⟩

end Cache

end SplitDNS.MDNS
