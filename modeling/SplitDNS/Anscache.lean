import SplitDNS.Dns.Edns
import SplitDNS.Go.Maps

/-! # The answer cache

The message cache of the forward path. An answer is kept for the clamped
lifetime of its records or of the zone's negative lifetime, and afterwards for a
while as a stale one; a failure is kept briefly. The elements are kept in the
order of their last use, the front of the association list being the last used.
-/

namespace SplitDNS.Anscache

open Go Go.Strings Dns

structure Config where
  maxEntries : ℤ := 0
  minTTL : Duration := 0
  maxTTL : Duration := 0
  negMinTTL : Duration := 0
  negMaxTTL : Duration := 0
  failTTL : Duration := 0
  serveStale : Bool := false
  staleTTL : Duration := 0
  staleMaxAge : Duration := 0
  deriving DecidableEq, Repr

def defaults : Config where
  maxEntries := 10000
  minTTL := 5 * second
  maxTTL := 24 * hour
  negMinTTL := 5 * second
  negMaxTTL := hour
  failTTL := 5 * second
  serveStale := true
  staleTTL := 30 * second
  staleMaxAge := 24 * hour

/-- The settings a new cache works with: a field that is not positive is replaced by its default,
and the lifetime of a failure is capped. -/
def Config.resolved (cfg : Config) : Config :=
  let orElse (x d : ℤ) := if x ≤ 0 then d else x
  { maxEntries := orElse cfg.maxEntries defaults.maxEntries
    minTTL := orElse cfg.minTTL defaults.minTTL
    maxTTL := orElse cfg.maxTTL defaults.maxTTL
    negMinTTL := orElse cfg.negMinTTL defaults.negMinTTL
    negMaxTTL := orElse cfg.negMaxTTL defaults.negMaxTTL
    failTTL := min (orElse cfg.failTTL defaults.failTTL) (5 * minute)
    serveStale := cfg.serveStale
    staleTTL := orElse cfg.staleTTL defaults.staleTTL
    staleMaxAge := orElse cfg.staleMaxAge defaults.staleMaxAge }

theorem resolved_maxEntries_pos (cfg : Config) : 0 < cfg.resolved.maxEntries := by
  simp only [Config.resolved]
  split_ifs with h
  · decide
  · exact not_le.mp h

structure Key where
  name : Str
  qtype : RRType
  qclass : UInt16
  doBit : Bool
  deriving DecidableEq, Repr

/-- `KeyFor`: the key of a request that may be cached. -/
def keyFor (req : Msg) : Option Key :=
  match req.question with
  | [q] =>
    if q.qtype = typeANY || q.qclass ≠ classINET then none
    else some ⟨toLower q.name, q.qtype, q.qclass, (isEdns0 req).any Record.doBit⟩
  | _ => none

inductive Kind where
  | positive
  | negative
  deriving DecidableEq, Repr

/-- What an entry stands for: only an answer has a message. -/
inductive Body where
  | answer (kind : Kind) (msg : Msg)
  | fail
  deriving DecidableEq, Repr

structure Entry where
  body : Body
  insertedAt : Time
  ttl : Duration
  hits : ℕ := 0
  deriving DecidableEq, Repr

structure Stats where
  hits : ℕ := 0
  misses : ℕ := 0
  staleServes : ℕ := 0
  failHits : ℕ := 0
  inserts : ℕ := 0
  evictions : ℕ := 0
  deriving DecidableEq, Repr

structure Cache where
  cfg : Config
  entries : Map Key Entry := ∅
  stats : Stats := {}

inductive Result where
  | miss
  | fresh (msg : Msg)
  | stale (msg : Msg)
  | fail
  deriving DecidableEq, Repr

section Lifetimes

def clamp (d lo hi : Duration) : Duration := if d < lo then lo else if hi < d then hi else d

def minTTL (rrs : List RR) : Duration :=
  ((rrs.filterMap id).foldl (fun (least : UInt32) r => min r.hdr.ttl least)
    0xffffffff).toNat * second

/-- `rr.(*dns.SOA)`: the header and the minimum of a start-of-authority record. -/
def asSOA (rr : RR) : Option (Header × UInt32) :=
  match rr with
  | some ⟨hdr, .soa _ _ _ _ _ _ minttl⟩ => some (hdr, minttl)
  | _ => none

def soaTTL (soa : Header × UInt32) : Duration := (min soa.1.ttl soa.2).toNat * second

/-- The first start-of-authority record that is at or above the name. -/
def findSOA (rrs : List RR) (qname : Str) : Option (Header × UInt32) :=
  (rrs.filterMap asSOA).find? fun soa =>
    let owner := toLower soa.1.name
    owner = ['.'] || toLower qname = owner || hasSuffix (toLower qname) ('.' :: owner)

def answersType (rrs : List RR) (qtype : RRType) : Bool :=
  rrs.any fun rr => rr.any fun r => r.hdr.rrtype = qtype

/-- The lifetimes reduced by the age, to one second at least. -/
def decrementTTL (m : Msg) (age : Duration) : Msg :=
  mapTTL (fun ttl =>
    let rem := toUint32 (age.tdiv second)
    if rem + 1 < ttl then ttl - rem else 1) m

def stampTTL (m : Msg) (ttl : Duration) : Msg := mapTTL (fun _ => toUint32 (ttl.tdiv second)) m

/-- Whether a response may be cached, for how long and as what. -/
def cacheable (cfg : Config) (resp : Msg) : Option (Duration × Kind) :=
  if resp.truncated then none
  else
    match resp.question with
    | [q] =>
      let negative := (findSOA resp.ns q.name).map fun soa =>
        (clamp (soaTTL soa) cfg.negMinTTL cfg.negMaxTTL, Kind.negative)
      if q.qtype = typeANY then none
      else
        match resp.rcode with
        | .success =>
          if answersType resp.answer q.qtype then
            some (clamp (minTTL resp.answer) cfg.minTTL cfg.maxTTL, .positive)
          else negative
        | .nameError => negative
        | _ => none
    | _ => none

end Lifetimes

namespace Cache

def new (cfg : Config) : Cache := { cfg := cfg.resolved }

def moveToFront (c : Cache) (k : Key) (e : Entry) : Cache :=
  { c with entries := c.entries.insert k e }

/-- An element that is of no use any more is dropped, which counts as a miss. -/
def drop (c : Cache) (k : Key) : Cache :=
  { c with entries := c.entries.erase k, stats := { c.stats with misses := c.stats.misses + 1 } }

def lookup (c : Cache) (k : Key) (now : Time) : Cache × Result :=
  match c.entries.lookup k with
  | none => ({ c with stats := { c.stats with misses := c.stats.misses + 1 } }, .miss)
  | some e =>
    let age := now - e.insertedAt
    let used := c.moveToFront k { e with hits := e.hits + 1 }
    match e.body with
    | .fail =>
      if age < e.ttl then
        ({ used with stats := { c.stats with failHits := c.stats.failHits + 1 } }, .fail)
      else (c.drop k, .miss)
    | .answer _ msg =>
      if age < e.ttl then
        ({ used with stats := { c.stats with hits := c.stats.hits + 1 } },
          .fresh (decrementTTL msg age))
      else if c.cfg.serveStale && age < e.ttl + c.cfg.staleMaxAge then
        (c.moveToFront k e, .stale (stampTTL msg c.cfg.staleTTL))
      else (c.drop k, .miss)

def noteStaleServed (c : Cache) : Cache :=
  { c with stats := { c.stats with staleServes := c.stats.staleServes + 1 } }

/-- `put`: the entry comes to the front, and the elements over the capacity fall off the back. -/
def put (c : Cache) (k : Key) (e : Entry) : Cache :=
  let entries := c.entries.insert k e
  let capacity := c.cfg.maxEntries.toNat
  { c with
    entries := Map.keepFirst entries capacity
    stats := { c.stats with
      inserts := c.stats.inserts + 1
      evictions := c.stats.evictions + (entries.entries.length - capacity) } }

def kept (resp : Msg) : Msg := { stripOPT resp with id := 0 }

def store (c : Cache) (k : Key) (resp : Msg) (now : Time) : Cache :=
  match cacheable c.cfg resp with
  | none => c
  | some (ttl, kind) => c.put k { body := .answer kind (kept resp), insertedAt := now, ttl }

def storeFail (c : Cache) (k : Key) (now : Time) : Cache :=
  c.put k { body := .fail, insertedAt := now, ttl := c.cfg.failTTL }

def flush (c : Cache) : Cache := { c with entries := ∅, stats := {} }

end Cache

end SplitDNS.Anscache
