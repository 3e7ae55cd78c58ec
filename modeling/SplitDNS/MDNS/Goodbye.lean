import SplitDNS.MDNS.Exact

/-! # Goodbyes

A goodbye takes the path of an announcement: its addresses are united with those
of the host or replace them, and the host is timed anew. Without a grace for
goodbyes it is an announcement with a lifetime of two minutes. With one the host
stays for the grace, and a goodbye that names what the host has adds nothing and
takes no other address with it.
-/

namespace SplitDNS.MDNS

open Go Go.Netip Go.Strings Dns Model

/-- Nothing new is listed for the host, and only addresses of the goodbye are gone. -/
structure OnlyWithdraws (a : Announcement) (v v' : MDNSView) : Prop where
  none_added : ∀ x, Lists v' a.host x → Lists v a.host x
  others_kept : ∀ x, Lists v a.host x → x ∉ a.addrs → Lists v' a.host x

namespace Cache

variable {c : Cache} {a : Announcement} {now : Time} {trust : Trust} {ord : Order} {host : Str}
  {x : Addr}

theorem live_iff : c.Live now host x ↔ c.TrustedNow now host x ∨ c.AnnouncedNow now host x := by
  rw [Live, mem_trustedAddrsLocked]
  rfl

theorem lists_view_iff {vord : RangeOrder Str Unit} :
    Lists (c.view now vord) host x ↔ c.TrustedNow now host x ∨ c.AnnouncedNow now host x := by
  rw [← live_iff]
  constructor
  · rintro ⟨rr, hrr, -, hcontent⟩
    rw [forward_view] at hrr
    obtain ⟨l, hl, rfl⟩ := List.mem_map.mp hrr
    obtain rfl : l.addr = x := Addr.eq_of_string_eq hcontent
    exact live_of_listing hl
  · intro hx
    exact lists_view hx vord

def Lingers (c : Cache) : Prop := 0 < c.goodbyeGrace ∨ 0 ≤ 120 * second + c.staleGrace

theorem le_expiry_refresh {e : Entry} {s : KeySet Addr} :
    now ≤ (c.refresh e s 0 now).expiry ↔ c.Lingers := by
  unfold refresh Lingers
  by_cases hgrace : 0 < c.goodbyeGrace
  · simp [hgrace, hgrace.le]
  · have hlife : ((min 120 maxTTL : UInt32).toNat : ℤ) = 120 := by decide
    simp only [hgrace, decide_false, Bool.and_false, Bool.false_eq_true, if_false, false_or,
      if_true, hlife]
    constructor <;> intro h <;> linarith

theorem announcedNow_goodbye (h₀ : ¬ (a.host = [] || a.addrs = []) = true) (httl : a.ttl = 0) :
    (c.apply a now trust ord).cache.AnnouncedNow now a.host x ↔
      c.Lingers ∧ x ∈ c.addrsAfter a now := by
  have hlookup := @lookup_apply_eq c a now trust ord h₀
  have haddrs := (lookup_apply_host h₀ hlookup).1
  have hexpiry : now ≤ (diffLocked (c.placed a now ord.hosts).2.2).1.expiry ↔ c.Lingers := by
    obtain ⟨e₀, s, hplaced⟩ := placed_entry c a now ord.hosts
    rw [diffLocked_entry, hplaced, httl]
    exact le_expiry_refresh
  constructor
  · rintro ⟨e, he, hnow, hx⟩
    rw [hlookup] at he
    cases he
    exact ⟨hexpiry.mp hnow, haddrs ▸ hx⟩
  · rintro ⟨hling, hx⟩
    exact ⟨_, hlookup, hexpiry.mpr hling, haddrs ▸ hx⟩

theorem trustedNow_apply (htrust : trust.isStrong = false) :
    (c.apply a now trust ord).cache.TrustedNow now host x ↔ c.TrustedNow now host x := by
  unfold TrustedNow
  rw [apply_trusted, (apply_settings c a now trust ord).1, htrust, Bool.and_false,
    if_neg Bool.false_ne_true]

/-- The goodbye names addresses that are listed, in a burst with none that has expired, and it is
in a burst or names every announced address that is listed. -/
structure Speaks (c : Cache) (a : Announcement) (now : Time) : Prop where
  known : c.Lingers → ∀ x ∈ a.addrs, c.Live now a.host x
  burst : c.Lingers → ∀ e, c.hosts.lookup a.host = some e → now - e.lastSeen ≤ burstWindow →
    ∀ x ∈ e.addrs, c.Live now a.host x
  whole : ∀ e, c.hosts.lookup a.host = some e → now ≤ e.expiry →
    ¬ (c.Lingers ∧ now - e.lastSeen ≤ burstWindow) →
      ∀ x ∈ e.addrs, x ∉ a.addrs → c.TrustedNow now a.host x

theorem onlyWithdraws_iff {vord vord' : RangeOrder Str Unit}
    (h₀ : ¬ (a.host = [] || a.addrs = []) = true) (httl : a.ttl = 0)
    (htrust : trust.isStrong = false) :
    OnlyWithdraws a (c.view now vord) ((c.apply a now trust ord).cache.view now vord') ↔
      c.Speaks a now := by
  have hafter : ∀ x, Lists ((c.apply a now trust ord).cache.view now vord') a.host x ↔
      c.TrustedNow now a.host x ∨ c.Lingers ∧ x ∈ c.addrsAfter a now := fun x => by
    rw [lists_view_iff, trustedNow_apply htrust, announcedNow_goodbye h₀ httl]
  constructor
  · intro hw
    have hlive : c.Lingers → ∀ x ∈ c.addrsAfter a now, c.Live now a.host x := fun hling x hx =>
      live_iff.mpr (lists_view_iff.mp (hw.none_added x ((hafter x).mpr (Or.inr ⟨hling, hx⟩))))
    constructor
    · intro hling x hx
      exact hlive hling x (mem_addrsAfter.mpr (Or.inl hx))
    · intro hling e he hburst x hx
      exact hlive hling x (mem_addrsAfter.mpr (Or.inr ⟨e, he, hburst, hx⟩))
    · intro e he hnow hno x hx hnew
      have hx' := hw.others_kept x (lists_view_iff.mpr (Or.inr ⟨e, he, hnow, hx⟩)) hnew
      rcases (hafter x).mp hx' with ht | ⟨hling, hx'⟩
      · exact ht
      · obtain ⟨e', he', hburst, -⟩ := (mem_addrsAfter.mp hx').resolve_left hnew
        rw [he] at he'
        cases he'
        exact absurd ⟨hling, hburst⟩ hno
  · intro hs
    constructor
    · intro x hx
      rw [lists_view_iff, ← live_iff]
      rcases (hafter x).mp hx with ht | ⟨hling, hx⟩
      · exact live_iff.mpr (Or.inl ht)
      · rcases mem_addrsAfter.mp hx with hx | ⟨e, he, hburst, hx⟩
        · exact hs.known hling x hx
        · exact hs.burst hling e he hburst x hx
    · intro x hx hnew
      rw [hafter]
      rcases lists_view_iff.mp hx with ht | ⟨e, he, hnow, hx⟩
      · exact Or.inl ht
      · by_cases hburst : c.Lingers ∧ now - e.lastSeen ≤ burstWindow
        · exact Or.inr ⟨hburst.1, mem_addrsAfter.mpr (Or.inr ⟨e, he, hburst.2, hx⟩)⟩
        · exact Or.inl (hs.whole e he hnow hburst x hx hnew)

theorem refresh_coerced (hgrace : c.goodbyeGrace ≤ 0) (e : Entry) (s : KeySet Addr) (now : Time) :
    c.refresh e s 0 now = c.refresh e s 120 now := by
  simp [refresh, not_lt.mpr hgrace]

theorem apply_coerced (hgrace : c.goodbyeGrace ≤ 0) (httl : a.ttl = 0)
    (htrust : trust.isStrong = false) :
    c.apply a now trust ord = c.apply { a with ttl := 120 } now trust ord := by
  have hplaced : c.placed a now ord.hosts = c.placed { a with ttl := 120 } now ord.hosts := by
    unfold placed
    simp only [httl, refresh_coerced hgrace]
  unfold apply
  simp only [hplaced, htrust, Bool.false_eq_true, if_false]

/-- Without a grace a goodbye is an announcement for two minutes. A goodbye that names what its host
has adds no address to the view and takes away no address but its own. -/
theorem goodbye_withdraws (c : Cache) (a : Announcement) (now : Time) (trust : Trust) (ord : Order)
    (vord vord' : RangeOrder Str Unit) (httl : a.ttl = 0) (htrust : trust ≠ .strong) :
    (c.goodbyeGrace ≤ 0 →
      c.apply a now trust ord = c.apply { a with ttl := 120 } now trust ord) ∧
    ((a.host ≠ [] → a.addrs ≠ [] → c.Speaks a now) →
      OnlyWithdraws a (c.view now vord) ((c.apply a now trust ord).cache.view now vord')) := by
  have hweak : trust.isStrong = false := by
    rcases trust with _ | _ | _
    · rfl
    · rfl
    · exact absurd rfl htrust
  refine ⟨fun hgrace => apply_coerced hgrace httl hweak, fun hs => ?_⟩
  by_cases h₀ : (a.host = [] || a.addrs = []) = true
  · rw [apply_ignored h₀]
    constructor
    · intro x hx
      exact lists_view_iff.mpr (lists_view_iff.mp hx)
    · intro x hx _
      exact lists_view_iff.mpr (lists_view_iff.mp hx)
  · have hguard : a.host ≠ [] ∧ a.addrs ≠ [] := by simpa using h₀
    exact (onlyWithdraws_iff h₀ httl hweak).mpr (hs hguard.1 hguard.2)

def nasCache (gg : Duration) : Cache := (empty 0 gg 0 1024).call (nasAt 120 0)

theorem goodbye_withdraws_nas :
    OnlyWithdraws ⟨"nas".toList, [.v4 0x0a000005], 0⟩ ((nasCache minute).view (10 * second) default)
      (((nasCache minute).apply ⟨"nas".toList, [.v4 0x0a000005], 0⟩ (10 * second) .weak
        {}).cache.view (10 * second) default) := by
  refine (goodbye_withdraws (nasCache minute) _ _ _ _ _ _ rfl (by decide)).2 fun _ _ => ?_
  have hlookup : ∃ e, (nasCache minute).hosts.lookup "nas".toList = some e ∧
      10 * second ≤ e.expiry ∧ e.addrs.keys = [.v4 0x0a000005] ∧ e.lastSeen = 0 :=
    ⟨_, rfl, by decide, by decide, rfl⟩
  obtain ⟨e, he, hnow, hkeys, hseen⟩ := hlookup
  have hmem : ∀ x, x ∈ e.addrs ↔ x = .v4 0x0a000005 := fun x => by
    rw [AList.mem_keys, hkeys, List.mem_singleton]
  have hlive : (nasCache minute).Live (10 * second) "nas".toList (.v4 0x0a000005) :=
    Or.inr ⟨e, he, hnow, (hmem _).mpr rfl⟩
  refine ⟨fun _ x hx => ?_, fun _ e' he' hburst => ?_, fun e' he' _ _ x hx hnew => ?_⟩
  · rw [List.mem_singleton.mp hx]
    exact hlive
  · rw [Option.some.inj (he'.symm.trans he), hseen] at hburst
    exact absurd hburst (by decide)
  · rw [Option.some.inj (he'.symm.trans he), hmem] at hx
    exact absurd (List.mem_singleton.mpr hx) hnew

/-- Without a grace, a goodbye for one address lists it and takes away another. -/
theorem goodbye_announces :
    let goodbye : Announcement := ⟨"nas".toList, [.v4 0x0a000006], 0⟩
    let before := (nasCache 0).view (10 * second) default
    let after :=
      ((nasCache 0).apply goodbye (10 * second) .weak {}).cache.view (10 * second) default
    (¬ Lists before "nas".toList (.v4 0x0a000006) ∧ Lists after "nas".toList (.v4 0x0a000006)) ∧
      Lists before "nas".toList (.v4 0x0a000005) ∧ ¬ Lists after "nas".toList (.v4 0x0a000005) := by
  decide

end Cache

end SplitDNS.MDNS
