import Mathlib.Algebra.Order.BigOperators.Group.List
import Mathlib.Data.Set.Finite.List
import SplitDNS.MDNS.Eviction
import SplitDNS.MDNS.Services

/-! # The size of the cache

How much the two stores can come to hold. The number of hosts is capped in both;
within a burst of packets the set of a host is only ever united, so what caps it
is the number of addresses there are, and for the services the number of types
that fit into a packet.
-/

namespace SplitDNS.MDNS

open Go Go.Netip Go.Strings Dns Model

def addressSpace : ℕ := 2 ^ 32 + 2 ^ 128

def Unzoned (x : Addr) : Prop := x.isValid = true ∧ x.zone = []

section Counting

/-- The position of an address among the ones without a zone. -/
def position : Addr → ℕ
  | .invalid => 0
  | .v4 b => b.toNat
  | .v6 b _ => 2 ^ 32 + b.toNat

theorem position_lt {x : Addr} (h : Unzoned x) : position x < addressSpace := by
  unfold addressSpace
  rcases x with _ | b | ⟨b, z⟩
  · exact absurd h.1 (by decide)
  · exact Nat.lt_add_right _ b.isLt
  · exact Nat.add_lt_add_left b.isLt _

theorem position_inj {x y : Addr} (hx : Unzoned x) (hy : Unzoned y)
    (h : position x = position y) : x = y := by
  rcases x with _ | b | ⟨b, z⟩ <;> rcases y with _ | b' | ⟨b', z'⟩
  · rfl
  · exact absurd hx.1 (by decide)
  · exact absurd hx.1 (by decide)
  · exact absurd hy.1 (by decide)
  · rw [BitVec.eq_of_toNat_eq h]
  · exact absurd h (Nat.ne_of_lt (Nat.lt_add_right _ b.isLt))
  · exact absurd hy.1 (by decide)
  · exact absurd h (Nat.ne_of_gt (Nat.lt_add_right _ b'.isLt))
  · obtain rfl : z = [] := hx.2
    obtain rfl : z' = [] := hy.2
    rw [BitVec.eq_of_toNat_eq (Nat.add_left_cancel h)]

theorem length_le_addressSpace {s : KeySet Addr} (h : ∀ x ∈ s, Unzoned x) :
    s.entries.length ≤ addressSpace :=
  Map.length_le_of_injOn (fun x hx => position_lt (h x hx))
    fun x hx y hy => position_inj (h x hx) (h y hy)

end Counting

namespace Cache

/-- The pairs of a host with an address or a service that the cache holds. -/
def pairs (c : Cache) : ℕ :=
  (c.hosts.entries.map fun p => p.2.addrs.entries.length + p.2.services.entries.length).sum +
    (c.trusted.entries.map fun p => p.2.addrs.entries.length).sum

/-- The hosts are within their caps, their addresses have no zone, their services are of the given
types, and the trusted ones are of the given names. -/
structure Capped (names types : Finset Str) (bound : ℤ) (c : Cache) : Prop where
  bounded : c.maxTrusted = bound
  hosts : c.hosts.entries.length ≤ maxHosts
  trusted : 0 < bound → (c.trusted.entries.length : ℤ) ≤ bound
  host : ∀ h e, c.hosts.lookup h = some e →
    h ≠ [] ∧ (∀ x ∈ e.addrs, Unzoned x) ∧ ∀ t ∈ e.services, t ∈ types
  trustedHost : ∀ h te, c.trusted.lookup h = some te →
    h ≠ [] ∧ h ∈ names ∧ ∀ x ∈ te.addrs, Unzoned x

variable {c : Cache} {names types : Finset Str} {bound : ℤ} {a : Announcement} {now : Time}
  {trust : Trust}

theorem Capped.sized (hc : Capped names types bound c) : Sized bound c :=
  ⟨hc.bounded, hc.hosts, hc.trusted, fun h e he => (hc.host h e he).1,
    fun h te hl => (hc.trustedHost h te hl).1⟩

section Steps

/-- The update is of a packet with hosts and types among the given ones. -/
def Within (names types : Finset Str) : Update → Prop
  | .apply a => a.Proper ∧ a.host ∈ names
  | .service svc => svc.type ∈ types
  | _ => True

theorem Capped.host_apply (hc : Capped names types bound c) (ha : a.Proper) {ord : Order} {h : Str}
    {e : Entry} (he : (c.apply a now trust ord).cache.hosts.lookup h = some e) :
    h ≠ [] ∧ (∀ x ∈ e.addrs, Unzoned x) ∧ ∀ t ∈ e.services, t ∈ types := by
  have haddrs : ∀ x ∈ e.addrs, Unzoned x := by
    intro x hx
    rcases mem_addrs_apply he hx with hx | ⟨e₀, he₀, hx⟩
    · exact ha.2 x hx
    · exact (hc.host h e₀ he₀).2.1 x hx
  refine ⟨?_, haddrs, fun t ht => ?_⟩
  · rcases lookup_apply he with ⟨rfl, -⟩ | hold
    · exact ha.1
    · exact (hc.host h e hold).1
  · obtain ⟨e₀, he₀, ht⟩ := mem_services_apply he ht
    exact (hc.host h e₀ he₀).2.2 t ht

theorem Capped.apply (hc : Capped names types bound c) (ha : a.Proper) (hn : a.host ∈ names)
    (ord : Order) : Capped names types bound (c.apply a now trust ord).cache := by
  have hs : Sized bound (c.apply a now trust ord).cache := hc.sized.apply ord
  refine ⟨hs.bounded, hs.hosts, hs.trusted, fun h e he => ?_, fun h te hl => ?_⟩
  · exact hc.host_apply ha he
  · have haddrs : ∀ x ∈ te.addrs, Unzoned x := by
      intro x hx
      rcases mem_trusted_apply hl hx with hx | ⟨te₀, hte₀, hx⟩
      · exact ha.2 x hx
      · exact (hc.trustedHost h te₀ hte₀).2.2 x hx
    rw [apply_trusted] at hl
    split_ifs at hl
    · rcases lookup_applyTrusted hl with ⟨rfl, -⟩ | ⟨-, hold⟩
      · exact ⟨ha.1, hn, haddrs⟩
      · exact hc.trustedHost h te hold
    · exact hc.trustedHost h te hl

theorem Capped.amend (hc : Capped names types bound c) {host : Str} {f : Entry → Option Entry}
    (hf : ∀ e e', f e = some e' → e'.addrs = e.addrs ∧
      ∀ t ∈ e'.services, t ∈ e.services ∨ t ∈ types) :
    Capped names types bound (c.amend host f).1 := by
  unfold Cache.amend
  rcases hb : (c.hosts.lookup host).bind f with _ | e₁
  · exact hc
  · obtain ⟨e₀, he₀, hfe⟩ := Option.bind_eq_some_iff.mp hb
    refine ⟨hc.bounded, ?_, hc.trusted, fun h e he => ?_, hc.trustedHost⟩
    · exact (Map.length_insert_of_mem (Map.mem_of_lookup he₀) e₁).trans_le hc.hosts
    · rw [Map.lookup_insert_eq_ite] at he
      split_ifs at he with hh
      · cases he
        obtain ⟨hnamed, haddrs, hservices⟩ := hc.host host e₀ he₀
        obtain ⟨hsame, hnew⟩ := hf e₀ e₁ hfe
        refine ⟨hh ▸ hnamed, hsame ▸ haddrs, fun t ht => ?_⟩
        exact (hnew t ht).elim (hservices t) id
      · exact hc.host h e he

theorem Capped.expire (hc : Capped names types bound c) (ord : RangeOrder Str Entry) :
    Capped names types bound (c.expire now ord).1 := by
  have hs : Sized bound (c.expire now ord).1 := hc.sized.expire ord
  refine ⟨hs.bounded, hs.hosts, hs.trusted, fun h e he => hc.host h e (lookup_expire he),
    fun h te hl => ?_⟩
  change (c.expireTrustedLocked now).lookup h = some te at hl
  rw [lookup_expireTrusted] at hl
  split_ifs at hl
  · exact hc.trustedHost h te hl
  · exact hc.trustedHost h te (Option.filter_eq_some_iff.mp hl).1

theorem Capped.call (hc : Capped names types bound c) (m : Method)
    (hm : Within names types m.update) : Capped names types bound (c.call m) := by
  obtain ⟨u, now, trust, ord⟩ := m
  cases u with
  | apply a => exact hc.apply hm.1 hm.2 ord
  | service svc =>
    change Capped names types bound (c.applyService _ _ _ _).1
    unfold applyService
    split_ifs
    · exact hc
    · refine hc.amend fun e e' he => ?_
      split_ifs at he
      cases he
      refine ⟨rfl, fun t ht => ?_⟩
      rcases (AList.mem_insert _).mp ht with rfl | ht
      · exact Or.inr hm
      · exact Or.inl ht
  | info svc =>
    change Capped names types bound (c.applyInfo _ _).1
    unfold applyInfo
    split_ifs
    · exact hc
    · refine hc.amend fun e e' he => ?_
      split_ifs at he
      cases he
      exact ⟨rfl, fun t ht => Or.inl ht⟩
  | expire => exact hc.expire ord.hosts

end Steps

/-- How many trusted hosts there may be, all of the given names if there is no cap. -/
def trustedCap (names : Finset Str) (bound : ℤ) : ℕ := if 0 < bound then bound.toNat else names.card

theorem Capped.length_trusted (hc : Capped names types bound c) :
    c.trusted.entries.length ≤ trustedCap names bound := by
  unfold trustedCap
  split_ifs with hb
  · have := hc.trusted hb
    omega
  · refine Map.length_le_card fun h hh => ?_
    obtain ⟨te, hl⟩ := Option.isSome_iff_exists.mp (AList.lookup_isSome.mpr hh)
    exact (hc.trustedHost h te hl).2.1

theorem sum_map_le {α : Type*} {l : List α} {f : α → ℕ} {n k : ℕ} (hlen : l.length ≤ n)
    (hf : ∀ x ∈ l, f x ≤ k) : (l.map f).sum ≤ n * k := by
  have hsum := List.sum_le_card_nsmul (l.map f) k fun y hy => by
    obtain ⟨x, hx, rfl⟩ := List.mem_map.mp hy
    exact hf x hx
  rw [List.length_map, Nat.nsmul_eq_mul] at hsum
  exact hsum.trans (Nat.mul_le_mul_right k hlen)

theorem Capped.pairs_le (hc : Capped names types bound c) :
    c.pairs ≤ maxHosts * (addressSpace + types.card) + trustedCap names bound * addressSpace := by
  refine Nat.add_le_add (sum_map_le hc.hosts fun p hp => ?_)
    (sum_map_le hc.length_trusted fun p hp => ?_)
  · obtain ⟨-, haddrs, hservices⟩ := hc.host p.1 p.2 (Map.lookup_eq_some_iff_mem_entries.mpr hp)
    exact Nat.add_le_add (length_le_addressSpace haddrs) (Map.length_le_card hservices)
  · obtain ⟨-, -, haddrs⟩ := hc.trustedHost p.1 p.2 (Map.lookup_eq_some_iff_mem_entries.mpr hp)
    exact length_le_addressSpace haddrs

end Cache

section Runs

/-- The names of the hosts that a packet announces addresses of. -/
def announcedHosts (p : Option Msg) : Finset Str := ((parsePacket p).map (·.host)).toFinset

/-- The types of the services that a packet links to hosts. -/
def announcedTypes (p : Option Msg) : Finset Str := ((parseServices p).map (·.type)).toFinset

/-- The packet, if it is one, has at most 65535 bytes. -/
def Drive.Received (unpack : List UInt8 → Option Msg) : Drive → Prop
  | .packet p _ => ∃ b, b.length ≤ 65535 ∧ p = unpack b
  | .tick => True

/-- The update is one that such a packet or the housekeeping makes. -/
def Method.Received (unpack : List UInt8 → Option Msg) (m : Method) : Prop :=
  ∃ d : Drive, d.Received unpack ∧ m.update ∈ d.updates

variable {unpack : List UInt8 → Option Msg} {names types : Finset Str}

theorem within_of_received (hnames : ∀ b, b.length ≤ 65535 → announcedHosts (unpack b) ⊆ names)
    (htypes : ∀ b, b.length ≤ 65535 → announcedTypes (unpack b) ⊆ types) {m : Method}
    (hm : m.Received unpack) : Cache.Within names types m.update := by
  obtain ⟨d, hd, hu⟩ := hm
  cases d with
  | packet p trust =>
    obtain ⟨b, hb, rfl⟩ := hd
    rcases Drive.mem_updates_packet.mp hu with ⟨a, ha, hu⟩ | ⟨svc, hsvc, hu | hu⟩
    · rw [hu]
      refine ⟨parsePacket_proper _ a ha, hnames b hb ?_⟩
      exact List.mem_toFinset.mpr (List.mem_map_of_mem ha)
    · rw [hu]
      exact htypes b hb (List.mem_toFinset.mpr (List.mem_map_of_mem hsvc))
    · rw [hu]
      trivial
  | tick =>
    rw [List.mem_singleton.mp hu]
    trivial

theorem updateAll_eq_foldl_call (c : Cache) (now : Time) (trust : Trust) (ord : Order)
    (us : List Update) : (c.updateAll now trust ord us).1 =
      (us.map fun u => (⟨u, now, trust, ord⟩ : Method)).foldl Cache.call c := by
  unfold Cache.updateAll
  generalize false = changed
  induction us generalizing c changed with
  | nil => rfl
  | cons u us ih => exact ih _ _

/-- The calls of the cache's methods that a run of the source makes. -/
def methods (evs : List SourceEvent) : List Method :=
  evs.flatMap fun ev => ev.drive.updates.map fun u => ⟨u, ev.now, ev.drive.trust, ev.ord⟩

theorem cache_foldl_step (s : Source) (evs : List SourceEvent) :
    (evs.foldl Source.step s).cache = (methods evs).foldl Cache.call s.cache := by
  induction evs generalizing s with
  | nil => rfl
  | cons ev evs ih =>
    have hcons : methods (ev :: evs) =
        (ev.drive.updates.map fun u => ⟨u, ev.now, ev.drive.trust, ev.ord⟩) ++ methods evs :=
      List.flatMap_cons
    rw [List.foldl_cons, ih, hcons, List.foldl_append, ← updateAll_eq_foldl_call]
    rfl

end Runs

/-- There is a bound on the pairs of a host with an address or a service that the cache holds, for
all runs of packets of at most 65535 bytes and of expiries, also when their calls interleave. -/
theorem pairs_bounded (unpack : List UInt8 → Option Msg) (maxTrusted : ℤ) :
    ∃ bound : ℕ, ∀ staleGrace goodbyeGrace trustedGrace : Duration,
      (∀ (now : Time) (visit : RangeOrder Str Unit) (evs : List SourceEvent),
        (∀ ev ∈ evs, ev.drive.Received unpack) →
        (evs.foldl Source.step
          (.new staleGrace goodbyeGrace trustedGrace maxTrusted now visit)).cache.pairs ≤ bound) ∧
      ∀ ms : List Method, (∀ m ∈ ms, m.Received unpack) →
        (ms.foldl Cache.call
          (.empty staleGrace goodbyeGrace trustedGrace maxTrusted)).pairs ≤ bound := by
  have hbytes : Finite UInt8 := Finite.of_injective UInt8.toFin fun _ _ => UInt8.toFin_inj.mp
  have hfin : {b : List UInt8 | b.length ≤ 65535}.Finite := List.finite_length_le UInt8 65535
  let names : Finset Str := hfin.toFinset.biUnion fun b => announcedHosts (unpack b)
  let types : Finset Str := hfin.toFinset.biUnion fun b => announcedTypes (unpack b)
  have hnames : ∀ b : List UInt8, b.length ≤ 65535 → announcedHosts (unpack b) ⊆ names :=
    fun b hb => Finset.subset_biUnion_of_mem (fun b => announcedHosts (unpack b))
      (hfin.mem_toFinset.mpr hb)
  have htypes : ∀ b : List UInt8, b.length ≤ 65535 → announcedTypes (unpack b) ⊆ types :=
    fun b hb => Finset.subset_biUnion_of_mem (fun b => announcedTypes (unpack b))
      (hfin.mem_toFinset.mpr hb)
  refine ⟨maxHosts * (addressSpace + types.card) +
    Cache.trustedCap names maxTrusted * addressSpace, fun sg gg tg => ?_⟩
  have hmethods : ∀ ms : List Method, (∀ m ∈ ms, m.Received unpack) →
      (ms.foldl Cache.call (.empty sg gg tg maxTrusted)).Capped names types maxTrusted := by
    intro ms hms
    refine List.foldlRecOn ms Cache.call ⟨rfl, Nat.zero_le _, fun hb => hb.le, ?_, ?_⟩
      fun c hc m hm => hc.call m (within_of_received hnames htypes (hms m hm))
    · rintro h e ⟨⟩
    · rintro h te ⟨⟩
  refine ⟨fun now visit evs hevs => ?_, fun ms hms => (hmethods ms hms).pairs_le⟩
  rw [cache_foldl_step]
  refine (hmethods (methods evs) fun m hm => ?_).pairs_le
  obtain ⟨ev, hev, hm⟩ := List.mem_flatMap.mp hm
  obtain ⟨u, hu, rfl⟩ := List.mem_map.mp hm
  exact ⟨ev.drive, hevs ev hev, hu⟩

end SplitDNS.MDNS
