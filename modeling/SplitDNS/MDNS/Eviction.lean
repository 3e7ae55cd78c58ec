import SplitDNS.Go.MapSize
import SplitDNS.MDNS.Isolation

/-! # Eviction

The number of hosts is capped in both stores. An announcement makes room before
it adds its host, and who has to go is the host that was seen first; no other
host leaves before it expires.
-/

namespace SplitDNS.MDNS

open Go Go.Netip

section Victims

variable {V : Type} (seen : V → Time) {m : Map Str V} (ord : RangeOrder Str V)

theorem exists_victim (hne : m.entries ≠ []) (hnamed : ∀ h v, m.lookup h = some v → h ≠ []) :
    ∃ v, m.lookup (oldestKey seen (ord.visit m)) = some v ∧
      ∀ h w, m.lookup h = some w → seen v ≤ seen w := by
  have hlookup : ∀ p ∈ ord.visit m, m.lookup p.1 = some p.2 := fun p hp =>
    Map.lookup_eq_some_iff_mem_entries.mpr ((ord.perm m).mem_iff.mp hp)
  have hvisit : ord.visit m ≠ [] := fun h => hne ((ord.perm m).symm.trans (h ▸ .nil) |>.eq_nil)
  obtain ⟨p, hp, hkey, hmin⟩ :=
    @oldestKey_spec V seen _ hvisit fun p hp => hnamed p.1 p.2 (hlookup p hp)
  refine ⟨p.2, hkey ▸ hlookup p hp, fun h w hw => ?_⟩
  exact hmin ⟨h, w⟩ ((ord.perm m).mem_iff.mpr (Map.lookup_eq_some_iff_mem_entries.mp hw))

theorem length_erase_oldest (hne : m.entries ≠ []) (hnamed : ∀ h v, m.lookup h = some v → h ≠ []) :
    oldestKey seen (ord.visit m) ≠ [] ∧
      (m.erase (oldestKey seen (ord.visit m))).entries.length + 1 = m.entries.length := by
  obtain ⟨v, hv, -⟩ := exists_victim seen ord hne hnamed
  exact ⟨hnamed _ v hv, Map.length_erase_of_mem (Map.mem_of_lookup hv)⟩

end Victims

namespace Cache

variable {c : Cache} {bound : ℤ} {a : Announcement} {now : Time} {trust : Trust}

/-- The hosts of both stores have names and are within their caps. -/
structure Sized (bound : ℤ) (c : Cache) : Prop where
  bounded : c.maxTrusted = bound
  hosts : c.hosts.entries.length ≤ maxHosts
  trusted : 0 < bound → (c.trusted.entries.length : ℤ) ≤ bound
  named : ∀ h e, c.hosts.lookup h = some e → h ≠ []
  trustedNamed : ∀ h te, c.trusted.lookup h = some te → h ≠ []

theorem entries_ne_nil_of_full (h : maxHosts ≤ c.hosts.entries.length) : c.hosts.entries ≠ [] := by
  intro hnil
  rw [hnil] at h
  exact absurd h (by decide)

theorem Sized.length_makeRoom (hc : Sized bound c) (ord : RangeOrder Str Entry) :
    (c.makeRoom ord).1.entries.length < maxHosts := by
  unfold makeRoom
  split_ifs with hfull
  · obtain ⟨hvictim, hlen⟩ :=
      length_erase_oldest Entry.lastSeen ord (entries_ne_nil_of_full hfull) hc.named
    have hhosts := hc.hosts
    simp only [evictOldestLocked, hvictim, ne_eq, not_false_eq_true, if_true]
    omega
  · exact not_le.mp hfull

theorem Sized.length_trustedRoom (hc : Sized bound c) (hb : 0 < bound) (ha : a.host ∉ c.trusted)
    (ord : RangeOrder Str TrustedEntry) :
    ((c.trustedRoom a ord).entries.length : ℤ) < bound := by
  have htrusted := hc.trusted hb
  unfold trustedRoom
  rw [hc.bounded]
  split_ifs with hfull
  · have hne : c.trusted.entries ≠ [] := by
      intro h
      rw [h] at hfull
      exact absurd (hb.trans_le hfull.2.2) (by decide)
    obtain ⟨hvictim, hlen⟩ := length_erase_oldest TrustedEntry.seen ord hne hc.trustedNamed
    simp only [evictOldestTrustedLocked, hvictim, ne_eq, not_false_eq_true, if_true]
    omega
  · exact not_le.mp fun hle => hfull ⟨ha, hb, hle⟩

theorem Sized.length_placed (hc : Sized bound c) (ord : RangeOrder Str Entry) (e : Entry) :
    ((c.placed a now ord).1.insert a.host e).entries.length ≤ maxHosts := by
  unfold placed
  rcases hl : c.hosts.lookup a.host with _ | e₀
  · exact (Map.length_insert_le _ _ _).trans (hc.length_makeRoom ord)
  · exact (Map.length_insert_of_mem (Map.mem_of_lookup hl) e).trans_le hc.hosts

theorem Sized.length_applyTrusted (hc : Sized bound c) (hb : 0 < bound)
    (ord : RangeOrder Str TrustedEntry) :
    ((c.applyTrustedLocked a now ord).1.entries.length : ℤ) ≤ bound := by
  by_cases hz : a.ttl = 0
  · have hle : (c.applyTrustedLocked a now ord).1.entries.length ≤ c.trusted.entries.length := by
      rw [applyTrustedLocked, if_pos hz]
      split_ifs
      · exact Map.length_erase_le _ _
      · exact le_rfl
    exact (Int.ofNat_le.mpr hle).trans (hc.trusted hb)
  · rw [applyTrusted_announcement hz]
    by_cases hmem : a.host ∈ c.trusted
    · rw [trustedRoom, if_neg fun h => h.1 hmem, Map.length_insert_of_mem hmem]
      exact hc.trusted hb
    · have hroom := hc.length_trustedRoom (a := a) hb hmem ord
      have hle := Map.length_insert_le (c.trustedRoom a ord) a.host ⟨c.trustedAfter a now, now⟩
      omega

theorem Sized.apply (hc : Sized bound c) (ord : Order) :
    Sized bound (c.apply a now trust ord).cache := by
  by_cases h₀ : (a.host = [] || a.addrs = []) = true
  · rw [apply_ignored h₀]
    exact hc
  have hname : a.host ≠ [] := fun h => h₀ (by simp [h])
  refine ⟨(apply_settings ..).2.trans hc.bounded, ?_, fun hb => ?_, fun h e he => ?_,
    fun h te hl => ?_⟩
  · rw [apply_hosts h₀]
    exact hc.length_placed ord.hosts _
  · rw [apply_trusted]
    split_ifs
    · exact hc.length_applyTrusted hb ord.trusted
    · exact hc.trusted hb
  · rcases lookup_apply he with ⟨rfl, -⟩ | hold
    · exact hname
    · exact hc.named h e hold
  · rw [apply_trusted] at hl
    split_ifs at hl
    · rcases lookup_applyTrusted hl with ⟨rfl, -⟩ | ⟨-, hold⟩
      · exact hname
      · exact hc.trustedNamed h te hold
    · exact hc.trustedNamed h te hl

theorem Sized.expire (hc : Sized bound c) (ord : RangeOrder Str Entry) :
    Sized bound (c.expire now ord).1 := by
  refine ⟨hc.bounded, (Map.length_foldl_erase_le _ id c.hosts).trans hc.hosts, fun hb => ?_,
    fun h e he => hc.named h e (lookup_expire he), fun h te hl => ?_⟩
  · change ((c.expireTrustedLocked now).entries.length : ℤ) ≤ bound
    unfold expireTrustedLocked
    split_ifs
    · exact hc.trusted hb
    · have hle := Map.length_foldl_erase_le (c.trusted.entries.filter fun p =>
        decide (c.trustedGrace < now - p.2.seen)) Sigma.fst c.trusted
      exact (Int.ofNat_le.mpr hle).trans (hc.trusted hb)
  · change (c.expireTrustedLocked now).lookup h = some te at hl
    rw [lookup_expireTrusted] at hl
    split_ifs at hl
    · exact hc.trustedNamed h te hl
    · exact hc.trustedNamed h te (Option.filter_eq_some_iff.mp hl).1

theorem sized_empty (sg gg tg : Duration) (mt : ℤ) : Sized mt (empty sg gg tg mt) :=
  ⟨rfl, Nat.zero_le _, fun hb => hb.le, fun h e he => by simp [empty] at he,
    fun h te hl => by simp [empty] at hl⟩

theorem Sized.step (hc : Sized bound c) (ev : Event) : Sized bound (c.step ev) := by
  cases ev with
  | apply a now trust ord => exact hc.apply ord
  | expire now ord => exact hc.expire ord

theorem sized_run (sg gg tg : Duration) (mt : ℤ) (es : List Event) :
    Sized mt (es.foldl Cache.step (empty sg gg tg mt)) :=
  List.foldlRecOn es Cache.step (sized_empty sg gg tg mt) fun _ hc ev _ => hc.step ev

/-- Why a host may leave the cache: it has expired, or the cache is full and no host was seen
before it. -/
def MayLeave (c : Cache) (e : Entry) : Event → Prop
  | .apply _ _ _ _ => c.hosts.entries.length = maxHosts ∧
    ∀ h' e', c.hosts.lookup h' = some e' → e.lastSeen ≤ e'.lastSeen
  | .expire now _ => e.expiry < now

variable {h : Str} {e : Entry}

theorem Sized.mayLeave_makeRoom (hc : Sized bound c) {ord : RangeOrder Str Entry}
    (he : c.hosts.lookup h = some e) (hgone : (c.makeRoom ord).1.lookup h = none) :
    c.hosts.entries.length = maxHosts ∧
      ∀ h' e', c.hosts.lookup h' = some e' → e.lastSeen ≤ e'.lastSeen := by
  unfold makeRoom at hgone
  split_ifs at hgone with hfull
  · obtain ⟨v, hv, hmin⟩ :=
      exists_victim Entry.lastSeen ord (entries_ne_nil_of_full hfull) hc.named
    rw [evictOldestLocked] at hgone
    dsimp only at hgone
    rw [if_pos (hc.named _ v hv)] at hgone
    have hvictim : h = oldestKey Entry.lastSeen (ord.visit c.hosts) := by
      by_contra hne
      rw [AList.lookup_erase_ne hne, he] at hgone
      cases hgone
    rw [← hvictim, he] at hv
    cases hv
    exact ⟨le_antisymm hc.hosts hfull, hmin⟩
  · rw [he] at hgone
    cases hgone

theorem Sized.mayLeave_step (hc : Sized bound c) (ev : Event) (he : c.hosts.lookup h = some e)
    (hgone : h ∉ (c.step ev).hosts) : c.MayLeave e ev := by
  rw [← AList.lookup_eq_none] at hgone
  cases ev with
  | apply a now trust ord =>
    change (c.apply a now trust ord).cache.hosts.lookup h = none at hgone
    by_cases h₀ : (a.host = [] || a.addrs = []) = true
    · rw [apply_ignored h₀, he] at hgone
      cases hgone
    rw [apply_hosts h₀, Map.lookup_insert_eq_ite] at hgone
    split_ifs at hgone
    rw [placed] at hgone
    rcases hl : c.hosts.lookup a.host with _ | e₀
    · rw [hl] at hgone
      exact hc.mayLeave_makeRoom he hgone
    · rw [hl, he] at hgone
      cases hgone
  | expire now ord =>
    change (c.expire now ord).1.hosts.lookup h = none at hgone
    rw [Cache.expire, Map.lookup_foldl_erase] at hgone
    split_ifs at hgone with hold
    · obtain ⟨p, hp, rfl⟩ := List.mem_map.mp hold
      obtain ⟨hvisit, hexp⟩ := List.mem_filter.mp hp
      have hp := Map.lookup_eq_some_iff_mem_entries.mpr ((ord.perm c.hosts).mem_iff.mp hvisit)
      rw [he] at hp
      cases hp
      change p.2.expiry < now
      exact of_decide_eq_true hexp
    · rw [he] at hgone
      cases hgone

theorem mem_apply (hname : a.host ≠ []) (haddrs : a.addrs ≠ []) (ord : Order) :
    a.host ∈ (c.apply a now trust ord).cache.hosts ∧
      (trust.isStrong = true → a.ttl ≠ 0 → a.host ∈ (c.apply a now trust ord).cache.trusted) := by
  have h₀ : ¬ (a.host = [] || a.addrs = []) = true := by simp [hname, haddrs]
  refine ⟨?_, fun ht hz => ?_⟩
  · rw [apply_hosts h₀]
    exact (AList.mem_insert _).mpr (Or.inl rfl)
  · rw [apply_trusted, if_pos (by simp [h₀, ht]), applyTrusted_announcement hz]
    exact (AList.mem_insert _).mpr (Or.inl rfl)

/-- In every run both stores stay within their caps, an announced host is kept, and a host leaves
the cache only when it has expired or, for room, when no host was seen before it. -/
theorem run_keeps_recent (staleGrace goodbyeGrace trustedGrace : Duration) (maxTrusted : ℤ)
    (hmax : 0 < maxTrusted) (es : List Event) (c : Cache)
    (hrun : c = es.foldl Cache.step (empty staleGrace goodbyeGrace trustedGrace maxTrusted)) :
    c.hosts.entries.length ≤ 4096 ∧ (c.trusted.entries.length : ℤ) ≤ maxTrusted ∧
      (∀ a now trust ord, a.host ≠ [] → a.addrs ≠ [] →
        a.host ∈ (c.step (.apply a now trust ord)).hosts ∧
          (trust.isStrong = true → a.ttl ≠ 0 →
            a.host ∈ (c.step (.apply a now trust ord)).trusted)) ∧
      ∀ ev h e, c.hosts.lookup h = some e → h ∉ (c.step ev).hosts → c.MayLeave e ev := by
  have hc : Sized maxTrusted c := hrun ▸ sized_run ..
  refine ⟨hc.hosts, hc.trusted hmax, fun a now trust ord hname haddrs => ?_, fun ev h e => ?_⟩
  · exact mem_apply hname haddrs ord
  · exact hc.mayLeave_step ev

/-- With room for one trusted host, the second one takes the place of the first. -/
theorem run_keeps_recent_two_hosts :
    (([.apply ⟨"nas".toList, [.v4 0x0a000005], 120⟩ 0 .strong {},
      .apply ⟨"tv".toList, [.v4 0x0a000006], 120⟩ second .strong {}] : List Event).foldl Cache.step
        (empty 0 0 0 1)).trusted.entries.length ≤ (1 : ℤ) :=
  (run_keeps_recent 0 0 0 1 (by decide) _ _ rfl).2.1

end Cache

end SplitDNS.MDNS
