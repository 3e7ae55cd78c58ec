import SplitDNS.Anscache
import SplitDNS.Netmatch
import SplitDNS.Runs.Basic

/-! # The forward path

A query for a public name is looked up in the answer cache, asked upstream, and
stored. A stale answer is served only if the upstream fails. Every message goes
out the same way: with the identifier of the request, without the addresses that
may not come from outside, and cut to the size of a datagram. Requests run
concurrently, and one event is one atomic step of one of them.
-/

namespace SplitDNS.Server

open Go Go.Netip Go.Strings Dns Anscache

section Egress

def underAllow (name : Str) (allow : List Str) : Bool :=
  allow.any fun sfx => name = toLower sfx || hasSuffix name ('.' :: toLower sfx)

def netipFrom (ip : Addr) : Option Addr := if ip.isValid then some ip.unmap else none

/-- An address record that may not be in a forwarded answer. -/
def blocked (rr : RR) : Bool :=
  match rr with
  | some ⟨_, .a ip⟩ => (netipFrom ip).any Netmatch.isForwardBlocked
  | some ⟨_, .aaaa ip⟩ => (netipFrom ip).any Netmatch.isForwardBlocked
  | _ => false

def applyRebindFilter (resp : Msg) (allow : List Str) : Msg :=
  if resp.question.head?.any fun q => underAllow (toLower q.name) allow then resp
  else { resp with answer := resp.answer.filter fun rr => !blocked rr }

def serverUDPSize : ℕ := 1232

/-- A request with what the handler knows about it: the transport and the suffixes of the snapshot
under which private addresses are legitimate. -/
structure Request where
  msg : Msg
  tcp : Bool := false
  allowSuffix : List Str := []
  deriving DecidableEq, Repr

variable (trunc : Truncate)

def respond (r : Request) (m : Msg) : Msg :=
  let (m, udpSize) :=
    match isEdns0 r.msg with
    | some opt =>
      (setEdns0 (stripOPT m) (UInt16.ofNat serverUDPSize) opt.doBit,
        min (if 512 ≤ opt.udpSize then opt.udpSize else 512) serverUDPSize)
    | none => (stripOPT m, 512)
  if r.tcp then m else trunc.run udpSize m

def refuse (r : Request) (rcode : Rcode) : Msg := respond trunc r (setRcode r.msg rcode)

def serveForwarded (r : Request) (resp : Msg) : Msg :=
  respond trunc r (applyRebindFilter { resp with id := r.msg.id } r.allowSuffix)

end Egress

/-- What a request ends with: a message of the upstream or of the cache as it is handed to the
egress, or a failure. -/
inductive Reply where
  | live (resp : Msg)
  | fresh (resp : Msg)
  | stale (resp : Msg)
  | failed
  deriving DecidableEq, Repr

def Reply.written (trunc : Truncate) (r : Request) : Reply → Msg
  | live resp => serveForwarded trunc r resp
  | fresh resp => serveForwarded trunc r resp
  | stale resp => serveForwarded trunc r resp
  | failed => refuse trunc r .serverFailure

/-- What comes back from the upstreams: an error, nothing, or a message. -/
abbrev Response := Except Str (Option Msg)

/-- A request that is not answered from the cache: its key, if the cache is used, and the stale
message to fall back on. -/
structure Pending where
  key : Option Key := none
  stale : Option Msg := none
  deriving DecidableEq, Repr

def cacheableRcode (rcode : Rcode) : Bool := rcode = .success || rcode = .nameError

/-- The first part of `forwardCached`: a reply from the cache, or a request to go upstream. -/
def beforeUpstream (cache : Option Cache) (req : Msg) (now : Time) :
    Option Cache × (Reply ⊕ Pending) :=
  match cache, keyFor req with
  | some c, some key =>
    let (c, result) := c.lookup key now
    (some c,
      match result with
      | .fresh msg => .inl (.fresh msg)
      | .fail => .inl .failed
      | .stale msg => .inr { key := some key, stale := some msg }
      | .miss => .inr { key := some key })
  | cache, _ => (cache, .inr {})

/-- An operation on the cache, if the request uses it. -/
def withCache (cache : Option Cache) (key : Option Key) (f : Cache → Key → Cache) : Option Cache :=
  cache.map fun c => key.elim c (f c)

def answerOf (resp : Response) : Option Msg :=
  match resp with
  | .ok (some m) => if cacheableRcode m.rcode then some m else none
  | _ => none

/-- The second part of `forwardCached`, from the response on. -/
def afterUpstream (cache : Option Cache) (p : Pending) (resp : Response) (now : Time) :
    Option Cache × Reply :=
  match answerOf resp, p.stale with
  | some m, _ => (withCache cache p.key fun c key => c.store key m now, .live m)
  | none, some m => (withCache cache p.key fun c _ => c.noteStaleServed, .stale m)
  | none, none => (withCache cache p.key fun c key => c.storeFail key now, .failed)

/-- The forward path with the requests at work, each with the response once that is there. -/
structure Forwarding where
  cache : Option Cache
  inflight : Map ℕ (Request × Pending × Option Response) := ∅

/-- One step: a request comes in and is looked up, its response comes in, it is finished. -/
inductive Event where
  | request (id : ℕ) (r : Request) (now : Time)
  | response (id : ℕ) (resp : Response)
  | finish (id : ℕ) (now : Time)

namespace Forwarding

/-- The forward path of a server that has just started with a cache. -/
def start (cfg : Anscache.Config) : Forwarding := { cache := some (Cache.new cfg) }

def request (s : Forwarding) (id : ℕ) (r : Request) (now : Time) : Option Forwarding :=
  if id ∈ s.inflight then none
  else
    match beforeUpstream s.cache r.msg now with
    | (cache, .inl _) => some { s with cache }
    | (cache, .inr p) => some { cache, inflight := s.inflight.insert id (r, p, none) }

def response (s : Forwarding) (id : ℕ) (resp : Response) : Option Forwarding :=
  match s.inflight.lookup id with
  | some (r, p, none) => some { s with inflight := s.inflight.insert id (r, p, some resp) }
  | _ => none

def finish (s : Forwarding) (id : ℕ) (now : Time) : Option Forwarding :=
  match s.inflight.lookup id with
  | some (_, p, some resp) =>
    some { cache := (afterUpstream s.cache p resp now).1, inflight := s.inflight.erase id }
  | _ => none

def step (s : Forwarding) : Event → Option Forwarding
  | .request id r now => s.request id r now
  | .response id resp => s.response id resp
  | .finish id now => s.finish id now

def reply (s : Forwarding) : Event → Option (Request × Reply)
  | .request id r now =>
    if id ∈ s.inflight then none
    else (beforeUpstream s.cache r.msg now).2.getLeft?.map fun reply => (r, reply)
  | .response _ _ => none
  | .finish id now =>
    match s.inflight.lookup id with
    | some (r, p, some resp) => some (r, (afterUpstream s.cache p resp now).2)
    | _ => none

end Forwarding

end SplitDNS.Server
