import Mathlib.Data.Nat.Notation
import Mathlib.Tactic.SplitIfs

/-! # Byte slices

Slices of byte strings, with nothing for a slice out of range, and the
little-endian words of `encoding/binary`.
-/

namespace Go

abbrev Bytes := List UInt8

/-- `b[lo:hi]`. -/
def slice (b : Bytes) (lo hi : ℕ) : Option Bytes :=
  if lo ≤ hi ∧ hi ≤ b.length then some ((b.take hi).drop lo) else none

def uint16 : Bytes → Option UInt16
  | lo :: hi :: _ => some (.ofNat (lo.toNat + 256 * hi.toNat))
  | _ => none

def putUint16 (x : UInt16) : Bytes := [.ofNat x.toNat, .ofNat (x.toNat / 256)]

variable {a b c : Bytes} {lo hi : ℕ}

theorem slice_eq_some (hlo : lo ≤ hi) (hhi : hi ≤ b.length) :
    slice b lo hi = some ((b.take hi).drop lo) := if_pos ⟨hlo, hhi⟩

theorem length_of_slice (h : slice b lo hi = some c) : c.length = hi - lo := by
  unfold slice at h
  split_ifs at h with hin
  cases h
  rw [List.length_drop, List.length_take]
  omega

theorem slice_append (hlo : a.length = lo) (hhi : a.length + b.length = hi) :
    slice (a ++ b ++ c) lo hi = some b := by
  subst hlo hhi
  rw [slice_eq_some (Nat.le_add_right _ _) (by simp), ← List.length_append, List.take_left,
    List.drop_left]

@[simp] theorem length_putUint16 (x : UInt16) : (putUint16 x).length = 2 := rfl

theorem uint16_putUint16 (x : UInt16) : uint16 (putUint16 x) = some x := by
  have hlt : x.toNat < 65536 := x.toNat_lt
  refine congrArg some (UInt16.toNat.inj ?_)
  rw [UInt16.toNat_ofNat', UInt8.toNat_ofNat', UInt8.toNat_ofNat']
  omega

theorem exists_uint16 (h : 2 ≤ b.length) : ∃ x, uint16 b = some x := by
  match b, h with
  | lo :: hi :: _, _ => exact ⟨_, rfl⟩

end Go
