import Mathlib.Algebra.Order.Field.Rat
import Mathlib.Data.Rat.Cast.Order
import Mathlib.Tactic.NormNum
import Mathlib.Tactic.Ring
import SplitDNS.Go.Basic

/-! # Floating point

The operations of `float64` that are used, left open: results hold for any
rounding, or for any that keeps the order. The rationals are an instance, with
exact arithmetic.
-/

namespace Go

class Float64 (F : Type*) where
  ofInt : ℤ → F
  add : F → F → F
  sub : F → F → F
  div : F → F → F
  lt : F → F → Bool
  le : F → F → Bool

instance : Float64 ℚ where
  ofInt n := n
  add x y := x + y
  sub x y := x - y
  div x y := x / y
  lt x y := x < y
  le x y := x ≤ y

/-- The operations of a floating point type on scaled values. -/
class Float64Scale (F : Type*) where
  mul : F → F → F
  neg : F → F
  eq : F → F → Bool

instance : Float64Scale ℚ where
  mul x y := x * y
  neg x := -x
  eq x y := x = y

def seconds {F : Type*} [Float64 F] (d : Duration) : F :=
  Float64.add (Float64.ofInt (d.tdiv second))
    (Float64.div (Float64.ofInt (d.tmod second)) (Float64.ofInt 1000000000))

/-- Rounding keeps the order. Overflow and underflow are left out: durations in seconds are far
from both. -/
class LawfulFloat64 (F : Type*) [Float64 F] : Prop where
  le_trans : ∀ {x y z : F}, Float64.le x y = true → Float64.le y z = true → Float64.le x z = true
  lt_of_lt_of_le : ∀ {x y z : F},
    Float64.lt x y = true → Float64.le y z = true → Float64.lt x z = true
  ofInt_le : ∀ {m n : ℤ}, m ≤ n → Float64.le (Float64.ofInt m : F) (Float64.ofInt n) = true
  ofInt_pos : ∀ {n : ℤ}, 0 < n → Float64.lt (Float64.ofInt 0 : F) (Float64.ofInt n) = true
  add_comm : ∀ x y : F, Float64.add x y = Float64.add y x
  le_add : ∀ {x y : F}, Float64.le (Float64.ofInt 0) x = true →
    Float64.le (Float64.ofInt 0) y = true → Float64.le x (Float64.add x y) = true
  div_nonneg : ∀ {x y : F}, Float64.le (Float64.ofInt 0) x = true →
    Float64.lt (Float64.ofInt 0) y = true → Float64.le (Float64.ofInt 0) (Float64.div x y) = true
  div_pos : ∀ {x y : F}, Float64.lt (Float64.ofInt 0) x = true →
    Float64.lt (Float64.ofInt 0) y = true → Float64.lt (Float64.ofInt 0) (Float64.div x y) = true

instance : LawfulFloat64 ℚ where
  le_trans h h' := decide_eq_true ((of_decide_eq_true h).trans (of_decide_eq_true h'))
  lt_of_lt_of_le h h' := decide_eq_true ((of_decide_eq_true h).trans_le (of_decide_eq_true h'))
  ofInt_le h := decide_eq_true (Int.cast_le.mpr h)
  ofInt_pos h := decide_eq_true (Int.cast_lt.mpr h)
  add_comm x y := Rat.add_comm x y
  le_add _ h :=
    decide_eq_true (le_add_of_nonneg_right (by simpa [Float64.le, Float64.ofInt] using h))
  div_nonneg h h' := by
    simp only [Float64.le, Float64.lt, Float64.ofInt, Float64.div, Int.cast_zero,
      decide_eq_true_eq] at h h' ⊢
    exact div_nonneg h h'.le
  div_pos h h' := by
    simp only [Float64.lt, Float64.ofInt, Float64.div, Int.cast_zero, decide_eq_true_eq] at h h' ⊢
    exact div_pos h h'

section Seconds

open LawfulFloat64

variable {F : Type*} [Float64 F] [LawfulFloat64 F] {d : Duration}

theorem nanoseconds_nonneg (h : 0 ≤ d) :
    Float64.le (Float64.ofInt 0 : F)
      (Float64.div (Float64.ofInt (d.tmod second)) (Float64.ofInt 1000000000)) = true :=
  div_nonneg (ofInt_le (Int.tmod_nonneg _ h)) (ofInt_pos (by decide))

theorem seconds_nonneg (h : 0 ≤ d) : Float64.le (Float64.ofInt 0) (seconds d : F) = true := by
  have hq : Float64.le (Float64.ofInt 0 : F) (Float64.ofInt (d.tdiv second)) = true :=
    ofInt_le (Int.tdiv_nonneg h (by decide))
  exact le_trans hq (le_add hq (nanoseconds_nonneg h))

theorem seconds_pos (h : 0 < d) : Float64.lt (Float64.ofInt 0) (seconds d : F) = true := by
  have hq : Float64.le (Float64.ofInt 0 : F) (Float64.ofInt (d.tdiv second)) = true :=
    ofInt_le (Int.tdiv_nonneg h.le (by decide))
  have hr := @nanoseconds_nonneg F _ _ d h.le
  rcases lt_or_ge 0 (d.tdiv second) with hpos | hzero
  · exact lt_of_lt_of_le (ofInt_pos hpos) (le_add hq hr)
  · -- less than a second is left to its fraction
    have hfrac : 0 < d.tmod second := by
      have hdiv := Int.mul_tdiv_add_tmod d second
      simp only [Duration, second] at *
      omega
    have hfrac : Float64.lt (Float64.ofInt 0 : F)
        (Float64.div (Float64.ofInt (d.tmod second)) (Float64.ofInt 1000000000)) = true :=
      div_pos (ofInt_pos hfrac) (ofInt_pos (by decide))
    rw [seconds, LawfulFloat64.add_comm]
    exact lt_of_lt_of_le hfrac (le_add hr hq)

end Seconds

def inSeconds (t : Time) : ℚ := t / 1000000000

theorem inSeconds_le {s t : Time} : inSeconds s ≤ inSeconds t ↔ s ≤ t := by
  unfold inSeconds
  rw [div_le_div_iff_of_pos_right (by norm_num), Int.cast_le]

theorem seconds_rat (d : Duration) : (seconds d : ℚ) = d / 1000000000 := by
  have hsplit : (d : ℚ) = (second * d.tdiv second + d.tmod second : ℤ) :=
    congrArg Int.cast (Int.mul_tdiv_add_tmod d second).symm
  simp only [seconds, Float64.add, Float64.div, Float64.ofInt]
  rw [hsplit]
  push_cast [second]
  ring

theorem seconds_sub (s t : Time) : (seconds (t - s) : ℚ) = inSeconds t - inSeconds s := by
  rw [seconds_rat, inSeconds, inSeconds, Int.cast_sub, sub_div]

end Go
