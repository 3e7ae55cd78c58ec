import Mathlib.Data.List.Sort
import SplitDNS.Go.NetipText
import SplitDNS.Model.Snapshot

/-! # The cache of announced hosts

The store behind the local view. An announcement of any trust tier is folded
into the volatile cache; within the burst window of the previous packet the
address sets are united, later ones replace. Announcements of the strong tier
are also kept in a separate persistent store. The operations return the calls
they make to the change callback, which triggers the dynamic updates.
-/

namespace SplitDNS.MDNS

open Go Go.Netip Go.Strings

def burstWindow : Duration := 5 * second

def maxHosts : ℕ := 4096

def maxTTL : UInt32 := 4500

inductive Trust where
  | none
  | weak
  | strong
  deriving DecidableEq, Repr

namespace Trust

def triggersDDNS : Trust → Bool
  | none => false
  | _ => true

def isStrong : Trust → Bool
  | strong => true
  | _ => false

end Trust

structure Announcement where
  host : Str
  addrs : List Addr
  ttl : UInt32
  deriving DecidableEq, Repr

structure SvcInfo where
  port : UInt16
  text : List Str
  deriving DecidableEq, Repr

structure Entry where
  addrs : KeySet Addr := ∅
  services : Map Str SvcInfo := ∅
  info : Str := []
  freshUntil : Time := 0
  expiry : Time := 0
  lastSeen : Time := 0
  notified : Str := []

structure TrustedEntry where
  addrs : KeySet Addr := ∅
  seen : Time := 0

structure Cache where
  hosts : Map Str Entry := ∅
  trusted : Map Str TrustedEntry := ∅
  staleGrace : Duration := 0
  goodbyeGrace : Duration := 0
  trustedGrace : Duration := 0
  maxTrusted : ℤ := 1024

/-- The orders of the `range` loops of one operation. -/
structure Order where
  hosts : RangeOrder Str Entry := default
  trusted : RangeOrder Str TrustedEntry := default

/-- A call of the change callback with a host and its addresses. -/
abbrev Call := Str × List Addr

def insertAll (s : KeySet Addr) (l : List Addr) : KeySet Addr :=
  l.foldl (fun s a => s.insert a ()) s

def sortAddrs (s : KeySet Addr) : List Addr := s.keys.insertionSort (· ≤ ·)

def joinAddrs (set : List Addr) : Str := join (set.map Addr.string) ','

/-- The loop of both evictions: the first key with the least time, empty for an empty map. -/
def oldestKey {V : Type} (seen : V → Time) (l : List (Sigma fun _ : Str => V)) : Str :=
  (l.foldl (fun (acc : Str × Time) p =>
    if acc.1 = [] || seen p.2 < acc.2 then (p.1, seen p.2) else acc) ([], 0)).1

def evictOldestLocked (hosts : Map Str Entry) (ord : RangeOrder Str Entry) : Map Str Entry × Str :=
  let victim := oldestKey Entry.lastSeen (ord.visit hosts)
  (if victim ≠ [] then hosts.erase victim else hosts, victim)

def evictOldestTrustedLocked (trusted : Map Str TrustedEntry) (ord : RangeOrder Str TrustedEntry) :
    Map Str TrustedEntry :=
  let victim := oldestKey TrustedEntry.seen (ord.visit trusted)
  if victim ≠ [] then trusted.erase victim else trusted

def trustedKey (addrs : KeySet Addr) : Str := joinAddrs (sortAddrs addrs)

/-- The set after a packet: united within the burst window of the last one, else replaced. -/
def foldAddrs (old : KeySet Addr) (last now : Time) (new : List Addr) : KeySet Addr :=
  insertAll (if burstWindow < now - last then ∅ else old) new

namespace Cache

/-- The trusted store after a strong announcement, and whether the host's set changed. -/
def applyTrustedLocked (c : Cache) (a : Announcement) (now : Time)
    (ord : RangeOrder Str TrustedEntry) : Map Str TrustedEntry × Bool :=
  if a.ttl = 0 then
    if a.host ∈ c.trusted then (c.trusted.erase a.host, true) else (c.trusted, false)
  else match c.trusted.lookup a.host with
    | some te =>
      let addrs := foldAddrs te.addrs te.seen now a.addrs
      (c.trusted.insert a.host ⟨addrs, now⟩, trustedKey addrs ≠ trustedKey te.addrs)
    | none =>
      let trusted := if 0 < c.maxTrusted && c.maxTrusted ≤ c.trusted.entries.length
        then evictOldestTrustedLocked c.trusted ord else c.trusted
      let addrs := insertAll ∅ a.addrs
      (trusted.insert a.host ⟨addrs, now⟩, trustedKey addrs ≠ [])

/-- The hosts with room for a new one, and the evicted host if one had to go. -/
def makeRoom (c : Cache) (ord : RangeOrder Str Entry) : Map Str Entry × Str :=
  if maxHosts ≤ c.hosts.entries.length then evictOldestLocked c.hosts ord else (c.hosts, [])

/-- The entry of the host after a packet, before the comparison with the last notified set. -/
def refresh (c : Cache) (e : Entry) (addrs : KeySet Addr) (ttl : UInt32) (now : Time) : Entry :=
  if ttl = 0 && 0 < c.goodbyeGrace then
    { e with addrs := addrs, lastSeen := now, freshUntil := now, expiry := now + c.goodbyeGrace }
  else
    let fresh := now + (min (if ttl = 0 then 120 else ttl) maxTTL).toNat * second
    { e with addrs := addrs, lastSeen := now, freshUntil := fresh, expiry := fresh + c.staleGrace }

/-- The other hosts, the evicted host if any, and the announced host's entry. -/
def placed (c : Cache) (a : Announcement) (now : Time) (ord : RangeOrder Str Entry) :
    Map Str Entry × Str × Entry :=
  match c.hosts.lookup a.host with
  | some e => (c.hosts, [], c.refresh e (foldAddrs e.addrs e.lastSeen now a.addrs) a.ttl now)
  | none =>
    let (hosts, evicted) := c.makeRoom ord
    (hosts, evicted, c.refresh {} (insertAll ∅ a.addrs) a.ttl now)

end Cache

/-- The entry with its set marked as notified, whether that is news, and the set in order. -/
def diffLocked (e : Entry) : Entry × Bool × List Addr :=
  let set := sortAddrs e.addrs
  let key := joinAddrs set
  if key = e.notified then (e, false, set) else ({ e with notified := key }, true, set)

/-- What an operation returns: the cache, whether the set changed, and the callback calls. -/
structure Outcome where
  cache : Cache
  changed : Bool
  calls : List Call

namespace Cache

def apply (c : Cache) (a : Announcement) (now : Time) (trust : Trust) (ord : Order) : Outcome :=
  if a.host = [] || a.addrs = [] then ⟨c, false, []⟩
  else
    let (hosts, evicted, e) := c.placed a now ord.hosts
    let (e, news, set) := diffLocked e
    let (trusted, moved) :=
      if trust.isStrong then c.applyTrustedLocked a now ord.trusted else (c.trusted, false)
    let changed := news || moved
    let calls :=
      if trust.triggersDDNS then
        (if evicted ≠ [] then [(evicted, [])] else []) ++ (if changed then [(a.host, set)] else [])
      else []
    ⟨{ c with hosts := hosts.insert a.host e, trusted := trusted }, changed, calls⟩

/-- The trusted store without the entries past the grace cap. -/
def expireTrustedLocked (c : Cache) (now : Time) : Map Str TrustedEntry :=
  if c.trustedGrace ≤ 0 then c.trusted
  else (c.trusted.entries.filter fun p => c.trustedGrace < now - p.2.seen).foldl
    (fun m p => m.erase p.1) c.trusted

def expire (c : Cache) (now : Time) (ord : RangeOrder Str Entry) : Cache × List Call :=
  let gone := ((ord.visit c.hosts).filter fun p => p.2.expiry < now).map Sigma.fst
  ({ c with
      hosts := gone.foldl (fun m h => m.erase h) c.hosts
      trusted := c.expireTrustedLocked now },
    gone.map fun h => (h, []))

end Cache

end SplitDNS.MDNS
