import SplitDNS.MDNS.Provenance

/-! # Delivery of changed sets

When a trusted-enough announcement hands the host's set to the change callback.
The marker of the last compared set moves with announcements of every tier, the
callback is only called for the trusted ones: a set that an untrusted packet
brings in counts as notified although it was never handed on.
-/

namespace SplitDNS.MDNS

open Go Go.Netip Go.Strings

theorem trustedKey_ne_nil {s : KeySet Addr} {a : Addr} (h : a ∈ s) : trustedKey s ≠ [] := by
  rw [trustedKey, joinAddrs]
  rcases hs : sortAddrs s with _ | ⟨b, l⟩
  · have := mem_sortAddrs.mpr h
    simp [hs] at this
  · exact join_cons_ne_nil (Addr.string_ne_nil b) _ _

theorem joinAddrs_inj {l l' : List Addr} (hl : ∀ a ∈ l, a.isValid ∧ a.zone = [])
    (hl' : ∀ a ∈ l', a.isValid ∧ a.zone = []) (h : joinAddrs l = joinAddrs l') : l = l' := by
  have hnil : ∀ l : List Addr, joinAddrs l = [] → l = [] := by
    rintro (_ | ⟨a, l⟩) h
    · rfl
    · exact absurd h (join_cons_ne_nil (Addr.string_ne_nil a) _ _)
  have hsplit : ∀ l : List Addr, l ≠ [] → (∀ a ∈ l, a.isValid ∧ a.zone = []) →
      split (joinAddrs l) ',' = l.map Addr.string := by
    intro l hne hl
    refine List.splitOn_intercalate ',' (fun s hs hc => ?_) (by simpa using hne)
    obtain ⟨a, ha, rfl⟩ := List.mem_map.mp hs
    exact (Addr.mem_string (hl a ha).1 (hl a ha).2 hc).2 rfl
  have hparse : ∀ l : List Addr, (∀ a ∈ l, a.isValid ∧ a.zone = []) →
      (l.map Addr.string).map parseAddr = l.map some := by
    intro l hl
    rw [List.map_map]
    exact List.map_congr_left fun a ha => parseAddr_string (hl a ha).1
  by_cases hne : l = []
  · subst hne
    exact (hnil l' h.symm).symm
  · have hne' : l' ≠ [] := by
      rintro rfl
      exact hne (hnil l h)
    have hmap := hsplit l hne hl
    rw [h, hsplit l' hne' hl'] at hmap
    have hparsed := congrArg (List.map parseAddr) hmap
    rw [hparse l hl, hparse l' hl'] at hparsed
    exact (List.map_injective_iff.mpr (Option.some_injective _) hparsed).symm

theorem sortAddrs_eq_of_trustedKey_eq {s s' : KeySet Addr} (hs : ∀ a ∈ s, a.isValid ∧ a.zone = [])
    (hs' : ∀ a ∈ s', a.isValid ∧ a.zone = []) (h : trustedKey s = trustedKey s') :
    sortAddrs s = sortAddrs s' :=
  joinAddrs_inj (fun a ha => hs a (mem_sortAddrs.mp ha)) (fun a ha => hs' a (mem_sortAddrs.mp ha)) h

namespace Cache

variable {c : Cache} {a : Announcement} {now : Time} {trust : Trust} {ord : Order}
  {past : List (Cache × Event)} {h : Str}

/-- The announcement brings in a host, changes the text of its set, or is strong and changes
its trusted set. -/
def Alters (c : Cache) (a : Announcement) (now : Time) (trust : Trust) (ord : Order) : Prop :=
  a.host ≠ [] ∧ a.addrs ≠ [] ∧
    ((∀ e ∈ c.hosts.lookup a.host, trustedKey (c.addrsAfter a now) ≠ trustedKey e.addrs) ∨
      trust.isStrong = true ∧ (c.applyTrustedLocked a now ord.trusted).2 = true)

instance : Decidable (c.Alters a now trust ord) := by unfold Alters; infer_instance

/-- The announcement exchanges the host's set for another one with the same text. -/
def Collides (c : Cache) (a : Announcement) (now : Time) : Prop :=
  ∃ e ∈ c.hosts.lookup a.host, trustedKey (c.addrsAfter a now) = trustedKey e.addrs ∧
    sortAddrs (c.addrsAfter a now) ≠ sortAddrs e.addrs

instance : Decidable (c.Collides a now) := by unfold Collides; infer_instance

/-- The tier of the announcement, if it alters the host's sets. -/
def alteration (h : Str) : Cache × Event → Option Trust
  | (c, .apply a now trust ord) =>
    if a.host = h ∧ c.Alters a now trust ord then some trust else none
  | (_, .expire _ _) => none

/-- The tier of the last announcement that altered the host's sets. -/
def lastAlteration (h : Str) (past : List (Cache × Event)) : Option Trust :=
  (past.filterMap (alteration h)).getLast?

/-- The set last passed to the change callback for the host. -/
def lastPassed (h : Str) (past : List (Cache × Event)) : Option (List Addr) :=
  ((past.flatMap fun p => p.1.calls p.2).filterMap fun call =>
    if call.1 = h then some call.2 else none).getLast?

/-- A set that the announcement leaves different from the one last passed is passed by it. -/
def Delivers (past : List (Cache × Event)) (c : Cache) : Event → Prop
  | .apply a now trust ord =>
    trust.triggersDDNS = true → ∀ e ∈ (c.apply a now trust ord).cache.hosts.lookup a.host,
      lastPassed a.host past ≠ some (sortAddrs e.addrs) →
        (a.host, sortAddrs e.addrs) ∈ (c.apply a now trust ord).calls
  | .expire _ _ => True

/-- The announcement hides a change of the set behind an equal text, or is trusted and finds
the sets of its host as an untrusted one has left them. -/
def Swallows (past : List (Cache × Event)) (c : Cache) : Event → Prop
  | .apply a now trust ord =>
    c.Collides a now ∨ trust.triggersDDNS = true ∧ a.host ∈ c.hosts ∧
      ¬ c.Alters a now trust ord ∧ lastAlteration a.host past = some .none
  | .expire _ _ => False

/-- The host's set was last altered by an untrusted announcement, or it was passed since. -/
def Settled (past : List (Cache × Event)) (c : Cache) : Prop :=
  ∀ h e, c.hosts.lookup h = some e → e.notified = trustedKey e.addrs ∧
    (lastAlteration h past = some .none ∨ lastPassed h past = some (sortAddrs e.addrs))

theorem lastAlteration_concat (p : Cache × Event) :
    lastAlteration h (past ++ [p]) = (alteration h p).or (lastAlteration h past) := by
  rw [lastAlteration, List.filterMap_append, List.getLast?_append]
  cases hp : alteration h p <;> simp [hp, lastAlteration]

theorem lastPassed_concat_of_not_mem {ev : Event} (hno : ∀ call ∈ c.calls ev, call.1 ≠ h) :
    lastPassed h (past ++ [(c, ev)]) = lastPassed h past := by
  have hnil :
      ((c.calls ev).filterMap fun call => if call.1 = h then some call.2 else none) = [] := by
    rw [List.filterMap_eq_nil_iff]
    intro call hcall
    rw [if_neg (hno call hcall)]
  simp [lastPassed, List.filterMap_append, hnil]

theorem lastPassed_concat_of_last {ev : Event} {l : List Call} {set : List Addr}
    (hl : c.calls ev = l ++ [(h, set)]) : lastPassed h (past ++ [(c, ev)]) = some set := by
  simp [lastPassed, hl, List.filterMap_append, List.getLast?_append]

theorem apply_changed_iff_alters
    (hn : ∀ e, c.hosts.lookup a.host = some e → e.notified = trustedKey e.addrs) :
    (c.apply a now trust ord).changed = true ↔ c.Alters a now trust ord := by
  by_cases h₀ : (a.host = [] || a.addrs = []) = true
  · rw [apply_ignored h₀]
    refine iff_of_false Bool.false_ne_true ?_
    rintro ⟨hh, ha, -⟩
    simp [hh, ha] at h₀
  · have hguard : a.host ≠ [] ∧ a.addrs ≠ [] := by simpa using h₀
    rw [Alters, and_iff_right hguard.1, and_iff_right hguard.2]
    rcases he : c.hosts.lookup a.host with _ | e
    · obtain ⟨x, hx⟩ := List.exists_mem_of_ne_nil _ hguard.2
      have hmem : x ∈ c.addrsAfter a now := mem_addrsAfter.mpr (Or.inl hx)
      have hnew : (c.placed a now ord.hosts).2.2.notified = [] := by
        simp only [placed, he, refresh_notified]
      refine iff_of_true ?_ (Or.inl fun e he => absurd he (Option.not_mem_none e))
      rw [apply_changed h₀, Bool.or_eq_true, diffLocked_news, placed_addrs, hnew]
      exact Or.inl (trustedKey_ne_nil hmem)
    · rw [apply_changed_of_lookup h₀ he (hn e he)]
      simp

theorem lookup_expire_of_call {ord : RangeOrder Str Entry} {call : Call}
    (hc : call ∈ (c.expire now ord).2) : (c.expire now ord).1.hosts.lookup call.1 = none := by
  rw [expire] at hc
  obtain ⟨v, hv, rfl⟩ := List.mem_map.mp hc
  rw [expire, Map.lookup_foldl_erase, if_pos hv]

theorem lookup_makeRoom_evicted {ord : RangeOrder Str Entry} {m : Map Str Entry} {v : Str}
    (hm : c.makeRoom ord = (m, v)) (hv : v ≠ []) : m.lookup v = none := by
  simp only [makeRoom, evictOldestLocked] at hm
  split_ifs at hm with hfull hvict
  · obtain ⟨rfl, rfl⟩ := Prod.mk.inj hm
    exact AList.lookup_erase _ _
  · obtain ⟨rfl, rfl⟩ := Prod.mk.inj hm
    exact absurd hv hvict
  · obtain ⟨rfl, rfl⟩ := Prod.mk.inj hm
    exact absurd rfl hv

theorem lookup_placed_evicted {ord : RangeOrder Str Entry} (hv : (c.placed a now ord).2.1 ≠ []) :
    (c.placed a now ord).1.lookup (c.placed a now ord).2.1 = none := by
  unfold placed at hv ⊢
  split at hv
  · exact absurd rfl hv
  · exact lookup_makeRoom_evicted rfl hv

theorem lookup_apply_of_call {call : Call} (hc : call ∈ (c.apply a now trust ord).calls)
    (hne : call.1 ≠ a.host) : (c.apply a now trust ord).cache.hosts.lookup call.1 = none := by
  by_cases h₀ : (a.host = [] || a.addrs = []) = true
  · simp [apply_ignored h₀] at hc
  · rw [apply_calls h₀] at hc
    rw [apply_hosts h₀, Map.lookup_insert_eq_ite, if_neg hne]
    split_ifs at hc with ht hv hch hch <;> simp at hc
    · rcases hc with rfl | rfl
      · exact lookup_placed_evicted hv
      · exact absurd rfl hne
    · subst hc
      exact lookup_placed_evicted hv
    · subst hc
      exact absurd rfl hne

theorem apply_of_not_alters {e : Entry}
    (hn : ∀ e, c.hosts.lookup a.host = some e → e.notified = trustedKey e.addrs)
    (halt : ¬ c.Alters a now trust ord) (hcol : ¬ c.Collides a now)
    (he : (c.apply a now trust ord).cache.hosts.lookup a.host = some e) :
    (c.apply a now trust ord).calls = [] ∧ e.notified = trustedKey e.addrs ∧
      ∃ e₀, c.hosts.lookup a.host = some e₀ ∧ sortAddrs e.addrs = sortAddrs e₀.addrs := by
  by_cases h₀ : (a.host = [] || a.addrs = []) = true
  · rw [apply_ignored h₀] at he ⊢
    exact ⟨rfl, hn e he, e, he, rfl⟩
  · have hch : (c.apply a now trust ord).changed = false := by
      rw [← Bool.not_eq_true, apply_changed_iff_alters hn]
      exact halt
    obtain ⟨haddrs, hnot⟩ := lookup_apply_host h₀ he
    have hguard : a.host ≠ [] ∧ a.addrs ≠ [] := by simpa using h₀
    rcases he₀ : c.hosts.lookup a.host with _ | e₀
    · exact absurd ⟨hguard.1, hguard.2, Or.inl (by simp [he₀])⟩ halt
    have hkey : trustedKey (c.addrsAfter a now) = trustedKey e₀.addrs := by
      by_contra hkey
      exact halt ⟨hguard.1, hguard.2, Or.inl (by simp [he₀, hkey])⟩
    refine ⟨by simp [apply_calls h₀, hch, placed, he₀], hnot, e₀, rfl, ?_⟩
    by_contra hset
    exact hcol ⟨e₀, he₀, hkey, haddrs ▸ hset⟩

theorem history_concat_of_untouched {ev : Event} (hno : ∀ call ∈ c.calls ev, call.1 ≠ h)
    (halt : alteration h (c, ev) = none) :
    lastAlteration h (past ++ [(c, ev)]) = lastAlteration h past ∧
      lastPassed h (past ++ [(c, ev)]) = lastPassed h past := by
  rw [lastAlteration_concat, halt, lastPassed_concat_of_not_mem hno]
  exact ⟨rfl, rfl⟩

theorem not_mem_calls_expire {ord : RangeOrder Str Entry} {e : Entry}
    (he : (c.expire now ord).1.hosts.lookup h = some e) :
    ∀ call ∈ c.calls (.expire now ord), call.1 ≠ h := by
  rintro call hcall rfl
  rw [lookup_expire_of_call hcall] at he
  cases he

theorem not_mem_calls_apply {e : Entry} (hh : h ≠ a.host)
    (he : (c.apply a now trust ord).cache.hosts.lookup h = some e) :
    ∀ call ∈ c.calls (.apply a now trust ord), call.1 ≠ h := by
  rintro call hcall rfl
  rw [lookup_apply_of_call hcall hh] at he
  cases he

theorem settled_announced {e : Entry} (hc : Settled past c)
    (hs : ¬ Swallows past c (.apply a now trust ord))
    (he : (c.apply a now trust ord).cache.hosts.lookup a.host = some e) :
    e.notified = trustedKey e.addrs ∧
      (lastAlteration a.host (past ++ [(c, .apply a now trust ord)]) = some .none ∨
        lastPassed a.host (past ++ [(c, .apply a now trust ord)]) = some (sortAddrs e.addrs)) := by
  have hn := fun e he => (hc a.host e he).1
  by_cases halt : c.Alters a now trust ord
  · have h₀ : ¬ (a.host = [] || a.addrs = []) = true := by simp [halt.1, halt.2.1]
    obtain ⟨haddrs, hnot⟩ := lookup_apply_host h₀ he
    refine ⟨hnot, ?_⟩
    by_cases ht : trust.triggersDDNS = true
    · obtain ⟨l, hl⟩ := calls_apply_of_changed ht ((apply_changed_iff_alters hn).mpr halt)
      rw [haddrs]
      exact Or.inr (lastPassed_concat_of_last hl)
    · obtain rfl : trust = .none := by
        cases trust
        · rfl
        · exact absurd rfl ht
        · exact absurd rfl ht
      left
      simp [lastAlteration_concat, alteration, halt]
  · obtain ⟨hcalls, hnot, e₀, he₀, hset⟩ :=
      apply_of_not_alters hn halt (fun h => hs (Or.inl h)) he
    have hno : ∀ call ∈ c.calls (.apply a now trust ord), call.1 ≠ a.host := by
      rw [calls, hcalls]
      simp
    obtain ⟨hlast, hpassed⟩ := @history_concat_of_untouched c past a.host _ hno
      (by simp [alteration, halt])
    rw [hlast, hpassed, hset]
    exact ⟨hnot, (hc _ e₀ he₀).2⟩

theorem step_settled (ev : Event) (hc : Settled past c) (hs : ¬ Swallows past c ev) :
    Settled (past ++ [(c, ev)]) (c.step ev) := by
  intro h e he
  cases ev with
  | expire now ord =>
    obtain ⟨hlast, hpassed⟩ := @history_concat_of_untouched c past h _ (not_mem_calls_expire he) rfl
    rw [hlast, hpassed]
    exact hc h e (lookup_expire he)
  | apply a now trust ord =>
    by_cases hh : h = a.host
    · subst hh
      exact settled_announced hc hs he
    · obtain ⟨hlast, hpassed⟩ := @history_concat_of_untouched c past h _ (not_mem_calls_apply hh he)
        (by simp [alteration, Ne.symm hh])
      rw [hlast, hpassed]
      rcases lookup_apply he with ⟨rfl, -⟩ | he₀
      · exact absurd rfl hh
      · exact hc h e he₀

theorem delivers_of_settled (ev : Event) (hc : Settled past c) (hs : ¬ Swallows past c ev) :
    Delivers past c ev := by
  cases ev with
  | expire now ord => trivial
  | apply a now trust ord =>
    intro ht e he hne
    have hn := fun e he => (hc a.host e he).1
    by_cases halt : c.Alters a now trust ord
    · have h₀ : ¬ (a.host = [] || a.addrs = []) = true := by simp [halt.1, halt.2.1]
      rw [(lookup_apply_host h₀ he).1]
      exact call_mem_apply ht ((apply_changed_iff_alters hn).mpr halt)
    · obtain ⟨-, -, e₀, he₀, hset⟩ := apply_of_not_alters hn halt (fun h => hs (Or.inl h)) he
      rcases (hc _ e₀ he₀).2 with hlast | hpassed
      · exact absurd (Or.inr ⟨ht, Map.mem_of_lookup he₀, halt, hlast⟩) hs
      · exact absurd (hset ▸ hpassed) hne

/-- Along a run from the empty cache in which no announcement swallows a change, every trusted
enough announcement passes the set it leaves unless that is the one last passed. -/
theorem always_delivers (staleGrace goodbyeGrace trustedGrace : Duration) (maxTrusted : ℤ)
    (es : List Event)
    (h : Runs.Always step (empty staleGrace goodbyeGrace trustedGrace maxTrusted)
      (fun past c ev => ¬ Swallows past c ev) es) :
    Runs.Always step (empty staleGrace goodbyeGrace trustedGrace maxTrusted) Delivers es := by
  have h₀ : Settled [] (empty staleGrace goodbyeGrace trustedGrace maxTrusted) := by
    intro h e he
    simp [empty] at he
  exact Runs.always_of_inv h₀ (fun past c ev => step_settled ev)
    (fun past c ev => delivers_of_settled ev) h

instance : DecidablePred (Delivers past c)
  | .apply _ _ _ _ => by unfold Delivers; infer_instance
  | .expire _ _ => .isTrue trivial

instance : DecidablePred (Swallows past c)
  | .apply _ _ _ _ => by unfold Swallows; infer_instance
  | .expire _ _ => .isFalse not_false

def edgeAddr : Addr := .v4 0x09090909

def edge (now : Time) (trust : Trust) : Event :=
  .apply ⟨"edge".toList, [edgeAddr], 120⟩ now trust {}

theorem always_delivers_edge :
    Runs.Always step (empty 0 0 0 1024) Delivers [edge 0 .weak, edge (10 * second) .weak] :=
  always_delivers 0 0 0 1024 [edge 0 .weak, edge (10 * second) .weak] (by decide)

/-- A trusted packet that confirms the set of an untrusted one is not passed on. -/
theorem trusted_confirmation_swallowed :
    ¬ Runs.Always step (empty 0 0 0 1024) Delivers [edge 0 .none, edge (10 * second) .weak] := by
  decide

end Cache

end SplitDNS.MDNS
