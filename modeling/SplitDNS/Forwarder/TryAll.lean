import Mathlib.Data.Finset.Basic
import SplitDNS.Dns.Message
import SplitDNS.Forwarder.Breaker
import SplitDNS.Go.Maps

/-! # Failover

The loop over the upstreams of a query. A first pass skips the upstreams whose
breaker refuses; a second pass ignores the breakers, but only when the first one
attempted nothing. The clock is read when the turn of an upstream comes and when
its attempt is over.
-/

open Go Dns

/-- The forwarder's breakers, by transport and address, and the disabled addresses. -/
structure SplitDNS.Forwarder where
  breakerEnabled : Bool := true
  policy : SplitDNS.Forwarder.Policy
  breakers : Map Str SplitDNS.Forwarder.Breaker := ∅
  disabled : Finset Str := ∅

namespace SplitDNS.Forwarder

structure Upstream where
  addr : Str
  net : Str
  serverName : Str := []
  deriving DecidableEq, Repr

/-- The instants at which the turn of each upstream comes and its attempt is over. -/
structure Clock where
  turn : ℕ → Time
  done : ℕ → Time

abbrev Attempt := Upstream → Except Str Msg

def Upstream.key (u : Upstream) : Str := u.net ++ '|' :: u.addr

/-- The upstream's breaker, a new one if it has none yet. -/
def breakerFor (policy : Policy) (breakers : Map Str Breaker) (u : Upstream) : Breaker :=
  (breakers.lookup u.key).getD (newBreaker policy)

/-- An upstream whose certificate could not be checked. -/
def lacksServerName (requireSNI : Bool) (u : Upstream) : Bool :=
  requireSNI && u.net = "tcp-tls".toList && u.serverName = []

structure Pass where
  breakers : Map Str Breaker
  allowedAny : Bool := false
  lastErr : Option Str := none
  resp : Option Msg := none

variable (f : Forwarder) (attempt : Attempt) (requireSNI : Bool)

/-- One attempt, recorded with the upstream's breaker. -/
def attemptOn (t : Time) (u : Upstream) (p : Pass) : Pass :=
  let record (ok : Bool) :=
    if f.breakerEnabled then
      p.breakers.insert u.key ((breakerFor f.policy p.breakers u).record t ok)
    else p.breakers
  match attempt u with
  | .ok resp => { p with breakers := record true, resp := some resp }
  | .error err => { p with breakers := record false, lastErr := some err }

/-- The turn of an upstream in the first pass, under its breaker. -/
def visit (turn done : Time) (u : Upstream) (p : Pass) : Pass :=
  if lacksServerName requireSNI u then
    { p with lastErr := some ("no TLS server name for ".toList ++ u.addr) }
  else if u.addr ∈ f.disabled then
    { p with lastErr := some ("forwarder: ".toList ++ u.addr ++ " manually disabled".toList) }
  else if f.breakerEnabled then
    let (b, ok) := (breakerFor f.policy p.breakers u).allow turn
    let p := { p with breakers := p.breakers.insert u.key b }
    if ok then attemptOn f attempt done u { p with allowedAny := true }
    else { p with lastErr := some ("forwarder: breaker open for ".toList ++ u.addr) }
  else attemptOn f attempt done u { p with allowedAny := true }

/-- The turn of an upstream in the second pass, whatever its breaker says. -/
def visitForced (done : Time) (u : Upstream) (p : Pass) : Pass :=
  if lacksServerName requireSNI u || u.addr ∈ f.disabled then p
  else attemptOn f attempt done u p

/-- A loop over the upstreams that returns with the first response. -/
def passOver (body : ℕ → Upstream → Pass → Pass) : ℕ → List Upstream → Pass → Pass
  | _, [], p => p
  | i, u :: us, p =>
    let p := body i u p
    if p.resp.isSome then p else passOver body (i + 1) us p

def firstPass (clock : Clock) : ℕ → List Upstream → Pass → Pass :=
  passOver fun i => visit f attempt requireSNI (clock.turn i) (clock.done i)

def forcedPass (clock : Clock) : ℕ → List Upstream → Pass → Pass :=
  passOver fun i => visitForced f attempt requireSNI (clock.done i)

/-- The failover over the upstreams, with the clock of each pass. -/
def tryAll (first forced : Clock) (ups : List Upstream) : Pass :=
  let p := firstPass f attempt requireSNI first 0 ups { breakers := f.breakers }
  if p.resp.isNone && f.breakerEnabled && !p.allowedAny then
    forcedPass f attempt requireSNI forced 0 ups p
  else p

end SplitDNS.Forwarder
