import SplitDNS.MDNS.Isolation
import SplitDNS.MDNS.Source

/-! # Exactness of the view

What a view lists is what the two stores hold at the time it is built. Every
address of a host is listed once: as trusted while the host's allocation is
within its grace, otherwise as announced until it expires. A pointer is listed
with every address, under its reverse name and with the same lifetime.
-/

namespace SplitDNS.MDNS

open Go Go.Netip Go.Strings Dns Model

structure Method where
  update : Update
  now : Time
  trust : Trust := .none
  ord : Order := {}

def Method.announced (m : Method) : Option Announcement :=
  match m.update with
  | .apply a => some a
  | _ => none

namespace Cache

def call (c : Cache) (m : Method) : Cache := (c.update m.now m.trust m.ord m.update).1

/-- The address is in the trusted set of the host, within the grace. -/
def TrustedNow (c : Cache) (now : Time) (host : Str) (x : Addr) : Prop :=
  ∃ te, c.trusted.lookup host = some te ∧
    (0 < c.trustedGrace → now - te.seen ≤ c.trustedGrace) ∧ x ∈ te.addrs

/-- The address is in the announced set of the host, which has not expired. -/
def AnnouncedNow (c : Cache) (now : Time) (host : Str) (x : Addr) : Prop :=
  ∃ e, c.hosts.lookup host = some e ∧ now ≤ e.expiry ∧ x ∈ e.addrs

variable {c : Cache} {now : Time} {host : Str} {x : Addr} {l : Listing}

theorem mem_trustedAddrsLocked : x ∈ c.trustedAddrsLocked host now ↔ c.TrustedNow now host x := by
  unfold trustedAddrsLocked TrustedNow
  rcases hl : c.trusted.lookup host with _ | te
  · exact iff_of_false (AList.notMem_empty x) (by simp)
  · by_cases hpast : (0 < c.trustedGrace && c.trustedGrace < now - te.seen) = true
    · simp only [hpast, if_true]
      refine iff_of_false (AList.notMem_empty x) ?_
      rintro ⟨te', ⟨⟩, hgrace, -⟩
      simp only [Bool.and_eq_true, decide_eq_true_eq] at hpast
      exact absurd (hgrace hpast.1) (not_le.mpr hpast.2)
    · simp only [hpast]
      simp only [Bool.and_eq_true, decide_eq_true_eq, not_and, not_lt] at hpast
      constructor
      · exact fun hx => ⟨te, rfl, hpast, hx⟩
      · rintro ⟨te', ⟨⟩, -, hx⟩
        exact hx

theorem unexpired_eq_some {e : Entry} :
    c.unexpired host now = some e ↔ c.hosts.lookup host = some e ∧ now ≤ e.expiry := by
  rw [unexpired, Option.filter_eq_some_iff]
  simp

theorem mem_listings : l ∈ c.listings now host ↔ l.host = host ∧
    ((l.trusted = true ∧ l.ttl = trustedTTL ∧ c.TrustedNow now host l.addr) ∨
      (l.trusted = false ∧ ¬ c.TrustedNow now host l.addr ∧
        ∃ e, c.hosts.lookup host = some e ∧ now ≤ e.expiry ∧ l.addr ∈ e.addrs ∧
          l.ttl = e.servedTTL now)) := by
  rw [listings, List.mem_append]
  constructor
  · rintro (hl | hl)
    · obtain ⟨x, hx, rfl⟩ := List.mem_map.mp hl
      exact ⟨rfl, Or.inl ⟨rfl, rfl, mem_trustedAddrsLocked.mp (mem_sortAddrs.mp hx)⟩⟩
    · rcases hun : c.unexpired host now with _ | e
      · rw [hun] at hl
        cases hl
      · rw [hun] at hl
        obtain ⟨x, hx, rfl⟩ := List.mem_map.mp hl
        obtain ⟨hx, hnot⟩ := List.mem_filter.mp hx
        obtain ⟨he, hnow⟩ := unexpired_eq_some.mp hun
        rw [decide_eq_true_eq, mem_trustedAddrsLocked] at hnot
        exact ⟨rfl, Or.inr ⟨rfl, hnot, e, he, hnow, mem_sortAddrs.mp hx, rfl⟩⟩
  · rcases l with ⟨host', x, ttl, trusted⟩
    rintro ⟨rfl, ⟨rfl, rfl, hx⟩ | ⟨rfl, hnot, e, he, hnow, hx, rfl⟩⟩
    · exact Or.inl (List.mem_map_of_mem (mem_sortAddrs.mpr (mem_trustedAddrsLocked.mpr hx)))
    · right
      rw [unexpired_eq_some.mpr ⟨he, hnow⟩]
      refine List.mem_map_of_mem (List.mem_filter.mpr ⟨mem_sortAddrs.mpr hx, ?_⟩)
      rw [decide_eq_true_eq, mem_trustedAddrsLocked]
      exact hnot

theorem live_of_listing (hl : l ∈ c.listings now host) : c.Live now host l.addr := by
  rcases (mem_listings.mp hl).2 with ⟨-, -, hx⟩ | ⟨-, -, e, he, hnow, hx, -⟩
  · exact Or.inl (mem_trustedAddrsLocked.mpr hx)
  · exact Or.inr ⟨e, he, hnow, hx⟩

theorem mem_hostNames_of_listing (hl : l ∈ c.listings now host) : host ∈ c.hostNames :=
  mem_hosts_of_live (live_of_listing hl)

theorem nodup_visit (ord : RangeOrder Str Unit) :
    ((ord.visit c.hostNames).map Sigma.fst).Nodup :=
  ((ord.perm c.hostNames).map Sigma.fst).nodup_iff.mpr (AList.keys_nodup c.hostNames)

theorem mem_visit (ord : RangeOrder Str Unit) :
    host ∈ (ord.visit c.hostNames).map Sigma.fst ↔ host ∈ c.hostNames :=
  ((ord.perm c.hostNames).map Sigma.fst).mem_iff

theorem forward_view (c : Cache) (now : Time) (ord : RangeOrder Str Unit) (host : Str) :
    ((c.view now ord).forward.lookup host).getD [] =
      (c.listings now host).map Listing.forward := by
  have hpairs : ((((ord.visit c.hostNames).map Sigma.fst).flatMap (c.listings now)).map
      fun l => (l.host, l.forward)) = ((ord.visit c.hostNames).map Sigma.fst).flatMap fun h =>
        ((c.listings now h).map Listing.forward).map fun rr => (h, rr) := by
    rw [List.map_flatMap]
    refine List.flatMap_congr fun h _ => ?_
    rw [List.map_map]
    refine List.map_congr_left fun l hl => ?_
    rw [(mem_listings.mp hl).1]
    rfl
  rw [view, hpairs, Map.lookup_group_flatMap (nodup_visit ord)]
  split_ifs with hh
  · rfl
  · symm
    rw [List.map_eq_nil_iff, List.eq_nil_iff_forall_not_mem]
    exact fun l hl => hh ((mem_visit ord).mpr (mem_hostNames_of_listing hl))

theorem mem_reverse_view {ord : RangeOrder Str Unit} {arpa : Str} {rr : Model.RR} :
    rr ∈ ((c.view now ord).reverse.lookup arpa).getD [] ↔
      ∃ host, ∃ l ∈ c.listings now host, l.reverse = some (arpa, rr) := by
  rw [view, Map.lookup_group_getD, List.mem_map]
  constructor
  · rintro ⟨⟨arpa', rr'⟩, hmem, rfl⟩
    obtain ⟨hmem, harpa⟩ := List.mem_filter.mp hmem
    obtain ⟨l, hl, hrev⟩ := List.mem_filterMap.mp hmem
    obtain ⟨h, -, hl⟩ := List.mem_flatMap.mp hl
    obtain rfl : arpa' = arpa := of_decide_eq_true harpa
    exact ⟨h, l, hl, hrev⟩
  · rintro ⟨h, l, hl, hrev⟩
    refine ⟨(arpa, rr), List.mem_filter.mpr ⟨List.mem_filterMap.mpr ⟨l, ?_, hrev⟩, by simp⟩, rfl⟩
    exact List.mem_flatMap.mpr ⟨h, (mem_visit ord).mpr (mem_hostNames_of_listing hl), hl⟩

end Cache

section Lifetimes

variable {sg gg : Duration} {now expiry : Time} {e : Entry}

/-- The times that announcements leave behind: fresh for as long as an announcement may last, and
stale for one of the graces. -/
structure Entry.Timed (sg gg : Duration) (e : Entry) : Prop where
  fresh_le : e.freshUntil ≤ e.expiry
  fresh_bound : e.freshUntil ≤ e.lastSeen + 4500 * second
  stale_bound : e.expiry ≤ e.freshUntil + max sg gg

end Lifetimes

namespace Cache

variable {A : Addr → Prop} {sg gg : Duration} {c : Cache} {a : Announcement} {now : Time}

theorem placed_entry (c : Cache) (a : Announcement) (now : Time) (ord : RangeOrder Str Entry) :
    ∃ e s, (c.placed a now ord).2.2 = c.refresh e s a.ttl now := by
  unfold placed
  rcases c.hosts.lookup a.host with _ | e
  · exact ⟨_, _, rfl⟩
  · exact ⟨_, _, rfl⟩

theorem mem_trustedAfter {x : Addr} (hx : x ∈ c.trustedAfter a now) :
    x ∈ a.addrs ∨ ∃ te, c.trusted.lookup a.host = some te ∧ x ∈ te.addrs := by
  unfold trustedAfter at hx
  rcases hl : c.trusted.lookup a.host with _ | te
  · rw [hl] at hx
    exact Or.inl ((mem_insertAll.mp hx).resolve_right (AList.notMem_empty x))
  · rw [hl] at hx
    exact (mem_foldAddrs.mp hx).imp_right fun h => ⟨te, rfl, h.2⟩

theorem mem_addrs_apply {trust : Trust} {ord : Order} {h : Str} {e : Entry} {x : Addr}
    (he : (c.apply a now trust ord).cache.hosts.lookup h = some e) (hx : x ∈ e.addrs) :
    x ∈ a.addrs ∨ ∃ e₀, c.hosts.lookup h = some e₀ ∧ x ∈ e₀.addrs := by
  rcases lookup_apply he with ⟨rfl, hset, -⟩ | hold
  · rw [hset, mem_addrsAfter] at hx
    exact hx.imp_right fun ⟨e₀, he₀, _, hx⟩ => ⟨e₀, he₀, hx⟩
  · exact Or.inr ⟨e, hold, hx⟩

theorem mem_trusted_apply {trust : Trust} {ord : Order} {h : Str} {te : TrustedEntry} {x : Addr}
    (hl : (c.apply a now trust ord).cache.trusted.lookup h = some te) (hx : x ∈ te.addrs) :
    x ∈ a.addrs ∨ ∃ te₀, c.trusted.lookup h = some te₀ ∧ x ∈ te₀.addrs := by
  rw [apply_trusted] at hl
  split_ifs at hl
  · rcases lookup_applyTrusted hl with ⟨rfl, rfl⟩ | ⟨-, hold⟩
    · exact mem_trustedAfter hx
    · exact Or.inr ⟨te, hold, hx⟩
  · exact Or.inr ⟨te, hl, hx⟩

/-- The addresses of both stores are among the given ones, and the times are in order. -/
structure Kept (A : Addr → Prop) (sg gg : Duration) (c : Cache) : Prop where
  settings : c.staleGrace = sg ∧ c.goodbyeGrace = gg
  hosts : ∀ h e, c.hosts.lookup h = some e → e.Timed sg gg ∧ ∀ x ∈ e.addrs, A x
  trusted : ∀ h te, c.trusted.lookup h = some te → ∀ x ∈ te.addrs, A x

variable {host : Str} {x : Addr}

theorem exists_trusted_listing_iff :
    (∃ l ∈ c.listings now host, l.addr = x ∧ l.trusted = true) ↔ c.TrustedNow now host x := by
  constructor
  · rintro ⟨l, hl, rfl, ht⟩
    rcases (mem_listings.mp hl).2 with ⟨-, -, hx⟩ | ⟨hf, -⟩
    · exact hx
    · rw [ht] at hf
      cases hf
  · intro hx
    exact ⟨⟨host, x, trustedTTL, true⟩, mem_listings.mpr ⟨rfl, Or.inl ⟨rfl, rfl, hx⟩⟩, rfl, rfl⟩

theorem exists_announced_listing_iff :
    (∃ l ∈ c.listings now host, l.addr = x ∧ l.trusted = false) ↔
      ¬ c.TrustedNow now host x ∧ c.AnnouncedNow now host x := by
  constructor
  · rintro ⟨l, hl, rfl, hf⟩
    rcases (mem_listings.mp hl).2 with ⟨ht, -⟩ | ⟨-, hnot, e, he, hnow, hx, -⟩
    · rw [hf] at ht
      cases ht
    · exact ⟨hnot, e, he, hnow, hx⟩
  · rintro ⟨hnot, e, he, hnow, hx⟩
    exact ⟨⟨host, x, e.servedTTL now, false⟩,
      mem_listings.mpr ⟨rfl, Or.inr ⟨rfl, hnot, e, he, hnow, hx, rfl⟩⟩, rfl, rfl⟩

theorem reverse_eq_some {l : Listing} {arpa : Str} {rr : Model.RR}
    (h : l.reverse = some (arpa, rr)) :
    reverseAddr l.addr.string = some arpa ∧ rr.type = typePTR ∧ rr.target = l.fqdn ∧
      rr.ttl = l.ttl := by
  obtain ⟨arpa', harpa, heq⟩ := Option.map_eq_some_iff.mp h
  cases heq
  exact ⟨harpa, rfl, rfl, rfl⟩

def nasAt (ttl : UInt32) (now : Time) : Method :=
  { update := .apply ⟨"nas".toList, [.v4 0x0a000005], ttl⟩, now }

end Cache

end SplitDNS.MDNS
