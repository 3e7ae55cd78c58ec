import SplitDNS.Dns.Reverse
import SplitDNS.MDNS.Provenance

/-! # The view of the announced hosts

The immutable view that is built from both stores. The trusted addresses of a
host come first and win over the announced ones, which are listed until they
expire. A record that is served past its announced lifetime gets a short one.
-/

namespace SplitDNS.MDNS

open Go Go.Netip Go.Strings Dns Model

def staleServeTTL : UInt32 := 30

def trustedTTL : UInt32 := 120

def ttlUntil (expiry now : Time) : UInt32 :=
  if expiry - now < second then 1 else toUint32 ((expiry - now) / second)

/-- The lifetime an announced address is served with. -/
def Entry.servedTTL (e : Entry) (now : Time) : UInt32 :=
  if e.freshUntil < now then min (ttlUntil e.expiry now) staleServeTTL
  else ttlUntil e.freshUntil now

def Entry.serviceList (e : Entry) : List MDNSService :=
  (e.services.entries.map fun p => ⟨p.1, p.2.port, p.2.text⟩).insertionSort (·.type ≤ ·.type)

structure Listing where
  host : Str
  addr : Addr
  ttl : UInt32
  trusted : Bool
  deriving DecidableEq, Repr

namespace Listing

def fqdn (l : Listing) : Str := l.host ++ ".local.".toList

def forward (l : Listing) : Model.RR :=
  { name := l.fqdn, type := if l.addr.is6 then typeAAAA else typeA, cls := classINET, ttl := l.ttl,
    content := l.addr.string, trusted := l.trusted }

def reverse (l : Listing) : Option (Str × Model.RR) :=
  (reverseAddr l.addr.string).map fun arpa =>
    (arpa, { name := arpa, type := typePTR, cls := classINET, ttl := l.ttl, content := l.fqdn,
             target := l.fqdn })

end Listing

namespace Cache

/-- The trusted addresses of a host, unless they are past the grace cap. -/
def trustedAddrsLocked (c : Cache) (host : Str) (now : Time) : KeySet Addr :=
  match c.trusted.lookup host with
  | some te => if 0 < c.trustedGrace && c.trustedGrace < now - te.seen then ∅ else te.addrs
  | none => ∅

def unexpired (c : Cache) (host : Str) (now : Time) : Option Entry :=
  (c.hosts.lookup host).filter fun e => !(e.expiry < now)

def listings (c : Cache) (now : Time) (host : Str) : List Listing :=
  let trusted := c.trustedAddrsLocked host now
  (sortAddrs trusted).map (fun a => ⟨host, a, trustedTTL, true⟩) ++
    match c.unexpired host now with
    | some e => ((sortAddrs e.addrs).filter (· ∉ trusted)).map fun a =>
        ⟨host, a, e.servedTTL now, false⟩
    | none => []

def offering (c : Cache) (now : Time) (host : Str) : Option Entry :=
  (c.unexpired host now).filter fun e => e.services.entries ≠ [] && e.addrs.entries ≠ []

def hostNames (c : Cache) : KeySet Str :=
  (c.hosts.keys ++ c.trusted.keys).foldl (fun s h => s.insert h ()) ∅

def view (c : Cache) (now : Time) (ord : RangeOrder Str Unit) : MDNSView :=
  let hosts := (ord.visit c.hostNames).map Sigma.fst
  let listed := hosts.flatMap (c.listings now)
  { forward := Map.group (listed.map fun l => (l.host, l.forward))
    reverse := Map.group (listed.filterMap Listing.reverse)
    services := Map.ofList (hosts.filterMap fun h =>
      (c.offering now h).map fun e => (h, e.serviceList))
    info := Map.ofList (hosts.filterMap fun h =>
      ((c.offering now h).filter (·.info ≠ [])).map fun e => (h, e.info)) }

end Cache

def Lists (v : MDNSView) (host : Str) (x : Addr) : Prop :=
  ∃ rr ∈ (v.forward.lookup host).getD [],
    rr.type = (if x.is6 then typeAAAA else typeA) ∧ rr.content = x.string

instance (v : MDNSView) (host : Str) (x : Addr) : Decidable (Lists v host x) :=
  inferInstanceAs (Decidable (∃ rr ∈ _, _))

namespace Cache

variable {c : Cache} {host : Str} {now : Time} {x : Addr}

theorem mem_hostNames : host ∈ c.hostNames ↔ host ∈ c.hosts ∨ host ∈ c.trusted := by
  have hfold : ∀ (l : List Str) (s : KeySet Str),
      host ∈ l.foldl (fun s h => s.insert h ()) s ↔ host ∈ l ∨ host ∈ s := by
    intro l
    induction l with
    | nil => simp
    | cons h l ih =>
      intro s
      rw [List.foldl_cons, ih, AList.mem_insert, List.mem_cons]
      tauto
  rw [hostNames, hfold, List.mem_append, ← AList.mem_keys, ← AList.mem_keys]
  exact or_iff_left (AList.notMem_empty host)

/-- The address is trusted, or announced and not expired. -/
def Live (c : Cache) (now : Time) (host : Str) (x : Addr) : Prop :=
  x ∈ c.trustedAddrsLocked host now ∨
    ∃ e, c.hosts.lookup host = some e ∧ now ≤ e.expiry ∧ x ∈ e.addrs

theorem exists_listing (h : c.Live now host x) :
    ∃ l ∈ c.listings now host, l.host = host ∧ l.addr = x := by
  unfold listings
  by_cases ht : x ∈ c.trustedAddrsLocked host now
  · refine ⟨⟨host, x, trustedTTL, true⟩, List.mem_append_left _ ?_, rfl, rfl⟩
    exact List.mem_map_of_mem (mem_sortAddrs.mpr ht)
  · obtain ⟨e, he, hnow, hx⟩ := h.resolve_left ht
    have hlive : c.unexpired host now = some e := by
      rw [unexpired, he, Option.filter_some, if_pos (by simpa using hnow)]
    rw [hlive]
    refine ⟨⟨host, x, e.servedTTL now, false⟩, List.mem_append_right _ ?_, rfl, rfl⟩
    refine List.mem_map_of_mem (List.mem_filter.mpr ⟨mem_sortAddrs.mpr hx, ?_⟩)
    simpa using ht

theorem mem_hosts_of_live (h : c.Live now host x) : host ∈ c.hostNames := by
  rw [mem_hostNames]
  rcases h with ht | ⟨e, he, -⟩
  · right
    rw [trustedAddrsLocked] at ht
    rcases hl : c.trusted.lookup host with _ | te
    · rw [hl] at ht
      exact absurd ht (AList.notMem_empty x)
    · exact Map.mem_of_lookup hl
  · exact Or.inl (Map.mem_of_lookup he)

theorem lists_view (h : c.Live now host x) (ord : RangeOrder Str Unit) :
    Lists (c.view now ord) host x := by
  obtain ⟨l, hl, rfl, rfl⟩ := exists_listing h
  have hvisit : l.host ∈ (ord.visit c.hostNames).map Sigma.fst :=
    ((ord.perm c.hostNames).map Sigma.fst).mem_iff.mpr (mem_hosts_of_live h)
  refine ⟨l.forward, ?_, rfl, rfl⟩
  rw [view, Map.lookup_group_getD]
  refine List.mem_map.mpr ⟨(l.host, l.forward), List.mem_filter.mpr ⟨?_, by simp⟩, rfl⟩
  exact List.mem_map_of_mem (List.mem_flatMap.mpr ⟨l.host, hvisit, hl⟩)

end Cache

end SplitDNS.MDNS
