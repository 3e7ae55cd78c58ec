import Mathlib.Algebra.Order.Field.Rat
import SplitDNS.Go.Basic

/-! # Circuit breakers

The breaker of one upstream. It trips on a run of failures or on the failure
ratio over a window of buckets, refuses requests while open, and probes for
recovery after a cooldown.
-/

namespace SplitDNS.Forwarder

open Go

inductive CbState where
  | closed
  | tripped
  | halfOpen
  deriving DecidableEq, Repr

structure Settings where
  window : Duration
  buckets : ℤ
  minSamples : ℤ
  failRatio : ℚ
  consecFail : ℤ
  cooldown : Duration
  halfOpenMax : ℤ

/-- Settings with which every bucket of the window spans at least a nanosecond: with less the
source's loop over the buckets may not end. -/
structure Policy extends Settings where
  spans : max buckets 1 ≤ window

def defaultPolicy : Policy where
  window := 30 * second
  buckets := 6
  minSamples := 10
  failRatio := 1 / 2
  consecFail := 5
  cooldown := 5 * second
  halfOpenMax := 1
  spans := by decide

structure Bucket where
  ok : ℕ := 0
  fail : ℕ := 0
  deriving DecidableEq, Repr

structure Breaker where
  pol : Settings
  state : CbState := .closed
  consec : ℕ := 0
  openedAt : Time := 0
  halfOpen : ℤ := 0
  buckets : List Bucket
  bucketDur : Duration
  headStart : Option Time := none
  headIdx : ℕ := 0

def Settings.breaker (pol : Settings) : Breaker where
  pol := { pol with buckets := max pol.buckets 1, halfOpenMax := max pol.halfOpenMax 1 }
  buckets := List.replicate (max pol.buckets 1).toNat {}
  bucketDur := pol.window.tdiv (max pol.buckets 1)

def newBreaker (pol : Policy) : Breaker := pol.toSettings.breaker

namespace Breaker

/-- The breaker after a request was let through or refused, and which of the two. -/
def allow (b : Breaker) (now : Time) : Breaker × Bool :=
  match b.state with
  | .tripped =>
    if b.pol.cooldown ≤ now - b.openedAt then ({ b with state := .halfOpen, halfOpen := 1 }, true)
    else (b, false)
  | .halfOpen =>
    if b.halfOpen < b.pol.halfOpenMax then ({ b with halfOpen := b.halfOpen + 1 }, true)
    else (b, false)
  | .closed => (b, true)

def trip (b : Breaker) (t : Time) : Breaker :=
  { b with state := .tripped, openedAt := t, halfOpen := 0 }

def closeLocked (b : Breaker) : Breaker :=
  { b with
    state := .closed, halfOpen := 0, buckets := b.buckets.map fun _ => {}, headStart := none }

def shouldTripLocked (b : Breaker) : Bool :=
  let fail := (b.buckets.map Bucket.fail).sum
  let total := (b.buckets.map Bucket.ok).sum + fail
  (0 < b.pol.consecFail && b.pol.consecFail ≤ b.consec) ||
    (b.pol.minSamples ≤ total && total ≠ 0 && b.pol.failRatio ≤ (fail : ℚ) / total)

/-- The window head moved on by one bucket, which is cleared. -/
def advanceOne (b : Breaker) (start : Time) : Breaker :=
  let idx := (b.headIdx + 1) % b.buckets.length
  { b with
    headIdx := idx, buckets := b.buckets.set idx {}, headStart := some (start + b.bucketDur) }

/-- The bucket loop, with the number of whole buckets left to pass. -/
def advanceBuckets : ℕ → Breaker → Breaker
  | 0, b => b
  | n + 1, b => advanceBuckets n (b.advanceOne (b.headStart.getD 0))

def advanceLocked (b : Breaker) (t : Time) : Breaker :=
  match b.headStart with
  | none => { b with headStart := some t }
  | some start =>
    if b.pol.window ≤ t - start then
      { b with buckets := b.buckets.map fun _ => {}, headStart := some t, headIdx := 0 }
    else advanceBuckets ((t - start) / b.bucketDur).toNat b

def count (b : Breaker) (ok : Bool) : Breaker :=
  { b with buckets := b.buckets.modify b.headIdx fun bk =>
      if ok then { bk with ok := bk.ok + 1 } else { bk with fail := bk.fail + 1 } }

def record (b : Breaker) (t : Time) (ok : Bool) : Breaker :=
  let b := (b.advanceLocked t).count ok
  if ok then
    let b := { b with consec := 0 }
    if b.state ≠ .closed then b.closeLocked else b
  else
    let b := { b with consec := b.consec + 1 }
    match b.state with
    | .halfOpen => b.trip t
    | .closed => if b.shouldTripLocked then b.trip t else b
    | .tripped => b

theorem allow_refused {b : Breaker} {now : Time} (h : (b.allow now).2 = false) :
    (b.allow now).1 = b := by
  cases hs : b.state with
  | closed => simp [allow, hs] at h
  | tripped =>
    simp only [allow, hs] at h ⊢
    split_ifs at h ⊢
    rfl
  | halfOpen =>
    simp only [allow, hs] at h ⊢
    split_ifs at h ⊢
    rfl

end Breaker

end SplitDNS.Forwarder
