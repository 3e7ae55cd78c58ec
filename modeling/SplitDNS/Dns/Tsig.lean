import Mathlib.Data.Nat.Notation
import SplitDNS.Go.Basic

/-! # Transaction signatures

The signature record that ends a signed packet, and the check of a received one.
Packing and the keyed hash are left open: a packet is whatever has a trailing
record and a verdict for each secret and second. A code covers the time and the
fudge that the check uses, so packets that carry the same valid code agree on
both.
-/

namespace Dns

open Go

/-- The fields of a signature record that its receiver reads, as they are in the packet. -/
structure Tsig where
  name : Str
  timeSigned : ℕ
  fudge : UInt16
  mac : Str
  deriving DecidableEq

namespace Tsig

/-- The time that is signed and checked: `tsigBuffer` replaces a time of zero by the current one. -/
def signedAt (t : Tsig) (now : ℤ) : ℤ := if t.timeSigned = 0 then now else t.timeSigned

/-- The fudge that is signed and checked: `tsigBuffer` replaces zero by the default. -/
def signedFudge (t : Tsig) : ℕ := if t.fudge = 0 then 300 else t.fudge.toNat

/-- The last second at which a signature that is checked at the given one is accepted. -/
def closes (t : Tsig) (now : ℤ) : ℤ := t.signedAt now + t.signedFudge

/-- The distance to the signed time is at most the fudge. -/
def inWindow (t : Tsig) (now : ℤ) : Bool := (now - t.signedAt now).natAbs ≤ t.signedFudge

theorem le_closes_of_inWindow {t : Tsig} {now : ℤ} (h : t.inWindow now = true) :
    now ≤ t.closes now := by
  have h := of_decide_eq_true h
  rw [closes]
  omega

end Tsig

/-- What is known about packets: their trailing record and the verdict on its code, which is about
the time and the fudge that stand for those of the record at the second of the check. -/
structure TsigScheme (B : Type*) where
  tsig : B → Option Tsig
  macValid : B → Str → ℤ → Bool
  mac_binds : ∀ {b b' t t' s s' now now'}, tsig b = some t → macValid b s now = true →
    tsig b' = some t' → macValid b' s' now' = true → t.mac = t'.mac →
    t.signedAt now = t'.signedAt now' ∧ t.signedFudge = t'.signedFudge

/-- `dns.TsigVerify` at the given second. -/
def tsigVerify {B : Type*} (scheme : TsigScheme B) (b : B) (secret : Str) (now : ℤ) : Bool :=
  (scheme.tsig b).any fun t => scheme.macValid b secret now && t.inWindow now

end Dns
