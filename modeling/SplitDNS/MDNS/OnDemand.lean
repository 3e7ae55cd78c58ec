import Mathlib.Algebra.Order.Archimedean.Basic
import SplitDNS.Go.Float
import SplitDNS.Go.Maps
import SplitDNS.Go.Netip
import SplitDNS.Tokens.Basic

/-! # On-demand resolution

A miss for a local host is solicited over multicast. A host that is asked for
already is joined, one that was asked for lately is not asked for again, and a
query needs a place among the pending hosts and a token of the global and of the
client's bucket. Tokens are exact rationals. What one call of `Resolve` does
with the lock held is one function of the state.
-/

namespace SplitDNS.MDNS

open Go Go.Netip

def odGlobalRate : ℚ := 10

def odGlobalBurst : ℚ := 20

def odClientRate : ℚ := 5

def odClientBurst : ℚ := 10

def odInflightCap : ℕ := 64

def odSuppressWindow : Duration := 10 * second

/-- The bound of the tables of recent queries and of clients. -/
def odTableCap : ℕ := 4096

/-- `odBucket`. No clock reads the zero time, which is `none`. -/
structure OdBucket where
  tokens : ℚ := 0
  last : Option Time := none
  deriving DecidableEq

namespace OdBucket

/-- The tokens with what the time since the last request added, full at the first use. -/
def refilled (b : OdBucket) (now : Time) (rate burst : ℚ) : ℚ :=
  let tokens :=
    match b.last with
    | some last => b.tokens + seconds (now - last) * rate
    | none => b.tokens
  if burst < tokens then burst
  else if b.last = none then burst
  else tokens

/-- The bucket after a request, and whether it was granted. -/
def allow (b : OdBucket) (now : Time) (rate burst : ℚ) : OdBucket × Bool :=
  let tokens := b.refilled now rate burst
  if 1 ≤ tokens then (⟨tokens - 1, some now⟩, true) else (⟨tokens, some now⟩, false)

def level (l : Tokens.Limit ℚ) (b : OdBucket) (u : ℚ) : ℚ :=
  match b.last with
  | some last => l.refill b.tokens (u - inSeconds last)
  | none => l.burst

theorem refilled_eq_level (l : Tokens.Limit ℚ) (b : OdBucket) (now : Time) :
    b.refilled now l.rate l.burst = level l b (inSeconds now) := by
  rcases b with ⟨tokens, _ | last⟩
  · exact ite_self _
  · simp only [refilled, level, reduceCtorEq, if_false, seconds_sub, mul_comm (_ - _)]
    exact (min_def_lt _ _).symm

theorem allow_eq (l : Tokens.Limit ℚ) (b : OdBucket) (now : Time) :
    b.allow now l.rate l.burst =
      if 1 ≤ level l b (inSeconds now) then (⟨level l b (inSeconds now) - 1, some now⟩, true)
      else (⟨level l b (inSeconds now), some now⟩, false) := by
  rw [allow, refilled_eq_level]

theorem isMeter (l : Tokens.Limit ℚ) :
    Tokens.IsMeter l inSeconds (fun b now => allow b now l.rate l.burst) (level l)
      (fun _ => True) fun _ => True where
  granted_iff b now _ _ := by
    rw [allow_eq]
    split_ifs with h
    · exact iff_of_true rfl h
    · exact iff_of_false (by simp) h
  good _ _ _ _ := trivial
  level_after b now _ _ u _ := by
    rw [allow_eq]
    rcases em (1 ≤ level l b (inSeconds now)) with h | h
    · rw [if_pos h]
      rfl
    · rw [if_neg h, if_neg Bool.false_ne_true, sub_zero]
      rfl

end OdBucket

/-- What `Resolve` decides with the lock held. -/
inductive Verdict where
  | disabled
  | joined (flight : ℕ)
  | suppressed
  | capFull
  | limited
  | solicited (flight : ℕ)
  deriving DecidableEq

/-- A call of `Resolve`: the label, the client and the clock, which is read once more when the
recent queries are bounded. The order is that of the loop over the clients. -/
structure Ask where
  label : Str
  client : Addr
  now : Time
  later : Time
  ord : RangeOrder Addr OdBucket := default

/-- The state under the lock. A query in flight is known by the number of queries before it. -/
structure OnDemand where
  enabled : Bool := true
  pending : Map Str ℕ := ∅
  recent : Map Str Time := ∅
  global : OdBucket := {}
  clients : Map Addr OdBucket := ∅
  flights : ℕ := 0

/-- The clients' buckets within their bound: idle ones are dropped, then any. -/
def trimClients (clients : Map Addr OdBucket) (ord : RangeOrder Addr OdBucket) (now : Time) :
    Map Addr OdBucket :=
  if odTableCap < clients.entries.length then
    let active := clients.deleteIf fun _ b => b.last.all (· < now - odSuppressWindow)
    (ord.visit active).foldl (fun m e => if m.entries.length ≤ odTableCap then m else m.erase e.1)
      active
  else clients

def odClientAllow (clients : Map Addr OdBucket) (ord : RangeOrder Addr OdBucket) (now : Time)
    (client : Addr) : Map Addr OdBucket × Bool :=
  if !client.isValid then (clients, true)
  else
    let clients := trimClients clients ord now
    let r := ((clients.lookup client).getD {}).allow now odClientRate odClientBurst
    (clients.insert client r.1, r.2)

/-- `odBoundRecent`, and whether it came to the hard reset. -/
def odBoundRecent (recent : Map Str Time) (now : Time) : Map Str Time × Bool :=
  if recent.entries.length ≤ odTableCap then (recent, false)
  else
    let fresh := recent.deleteIf fun _ t => t < now - odSuppressWindow
    if odTableCap < fresh.entries.length then (∅, true) else (fresh, false)

namespace OnDemand

/-- The label was asked for within the suppression window. -/
def recently (od : OnDemand) (label : Str) (now : Time) : Bool :=
  (od.recent.lookup label).any fun t => now - t < odSuppressWindow

/-- The part of `Resolve` up to the query, with whether the recent queries were reset. -/
def resolve (od : OnDemand) (x : Ask) : OnDemand × Verdict × Bool :=
  if !od.enabled || x.label = [] then (od, .disabled, false)
  else match od.pending.lookup x.label with
    | some flight => (od, .joined flight, false)
    | none =>
      if od.recently x.label x.now then (od, .suppressed, false)
      else if odInflightCap ≤ od.pending.entries.length then (od, .capFull, false)
      else
        let g := od.global.allow x.now odGlobalRate odGlobalBurst
        if !g.2 then ({ od with global := g.1 }, .limited, false)
        else
          let c := odClientAllow od.clients x.ord x.now x.client
          if !c.2 then ({ od with global := g.1, clients := c.1 }, .limited, false)
          else
            let r := odBoundRecent (od.recent.insert x.label x.now) x.later
            ({ od with
               pending := od.pending.insert x.label od.flights
               recent := r.1
               global := g.1
               clients := c.1
               flights := od.flights + 1 }, .solicited od.flights, r.2)

/-- The end of `Resolve` after its wait: the entry is removed unless another one took its place. -/
def release (od : OnDemand) (label : Str) (flight : ℕ) : OnDemand :=
  if od.pending.lookup label = some flight then { od with pending := od.pending.erase label }
  else od

/-- One host that became visible: its waiters are woken and the entry is removed. -/
def wake (p : OnDemand × List ℕ) (host : Str) : OnDemand × List ℕ :=
  match p.1.pending.lookup host with
  | some flight => ({ p.1 with pending := p.1.pending.erase host }, p.2 ++ [flight])
  | none => p

/-- `completeInflight`, with the flights whose channels are closed. -/
def completeInflight (od : OnDemand) (hosts : List Str) : OnDemand × List ℕ :=
  hosts.foldl wake (od, [])

end OnDemand

def odGlobalLimit : Tokens.Limit ℚ where
  rate := odGlobalRate
  burst := odGlobalBurst
  rate_nonneg := by decide
  burst_nonneg := by decide

section Budget

/-- The number of requests at some times that the global bucket admits. -/
def admitted (b : OdBucket) (times : List Time) : ℕ :=
  (Tokens.granted (fun b now => OdBucket.allow b now odGlobalRate odGlobalBurst) b times).length

variable {od : OnDemand} {x : Ask} {b : OdBucket} {now : Time}

theorem global_granted_iff : (b.allow now odGlobalRate odGlobalBurst).2 = true ↔
    1 ≤ b.level odGlobalLimit (inSeconds now) :=
  (OdBucket.isMeter odGlobalLimit).granted_iff b now trivial trivial

end Budget

end SplitDNS.MDNS
