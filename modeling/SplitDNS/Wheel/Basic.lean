import Mathlib.Algebra.Group.Int.Defs
import Mathlib.Data.List.Rotate
import Mathlib.Tactic.Ring

/-! # Timing wheels

A ring of slots with a head, read as a queue from the oldest slot to the one at
the head. The slots stand for slices of time of one length, the latest of which
starts at a given time. Turning the ring drops the oldest slot and starts a new
slice.
-/

namespace Wheel

variable {α : Type*} {l : List α} {head : ℕ}

/-- The slots from the oldest to the one at the head. -/
def queue (l : List α) (head : ℕ) : List α := l.rotate (head + 1)

theorem queue_perm (l : List α) (head : ℕ) : (queue l head).Perm l := List.rotate_perm l (head + 1)

/-- The queue of a ring whose slot at the head was written. -/
theorem queue_set (h : head < l.length) (x : α) :
    queue (l.set head x) head = l.drop (head + 1) ++ l.take head ++ [x] := by
  have hlen : head + 1 ≤ (l.set head x).length := List.length_set.symm ▸ h
  have hnew : (l.set head x).take (head + 1) = l.take head ++ [x] := by
    rw [List.take_add_one, List.take_set_of_le le_rfl, List.getElem?_set_self h]
    rfl
  rw [queue, List.rotate_eq_drop_append_take hlen, hnew,
    List.drop_set_of_lt (Nat.lt_succ_self head), List.append_assoc]

/-- A slot that is overwritten moves from the front of the rotated ring to its end. -/
theorem rotate_succ_set {i : ℕ} (h : i < l.length) (x : α) :
    (l.set i x).rotate (i + 1) = (l.rotate i).tail ++ [x] := by
  have hold : l.drop i ≠ [] := by
    rw [ne_eq, List.drop_eq_nil_iff]
    omega
  rw [← queue, queue_set h, List.rotate_eq_drop_append_take h.le, List.tail_append_of_ne_nil hold,
    List.tail_drop]

theorem rotate_succ {i : ℕ} (h : i < l.length) :
    l.rotate (i + 1) = (l.rotate i).tail ++ [l.get ⟨i, h⟩] := by
  rw [← rotate_succ_set h, List.get_eq_getElem, List.set_getElem_self]

/-- The head moves on to the oldest slot, which is overwritten. -/
theorem queue_advance (hl : l ≠ []) (x : α) :
    queue (l.set ((head + 1) % l.length) x) ((head + 1) % l.length) =
      (queue l head).tail ++ [x] := by
  have hlt : (head + 1) % l.length < l.length := Nat.mod_lt _ (List.length_pos_iff.mpr hl)
  rw [queue, rotate_succ_set hlt, queue, List.rotate_mod]

/-- A change at the head is one of the last slot of the queue. -/
theorem queue_modify (h : head < l.length) (f : α → α) :
    ∃ q x, queue l head = q ++ [x] ∧ queue (l.modify head f) head = q ++ [f x] := by
  refine ⟨l.drop (head + 1) ++ l.take head, l.get ⟨head, h⟩, ?_, ?_⟩
  · have hsame := queue_set h (l.get ⟨head, h⟩)
    rwa [List.get_eq_getElem, List.set_getElem_self] at hsame
  · rw [List.modify_eq_set_get f h, queue_set h]

/-- The slices before and at a start, each of the given length, from the oldest on. -/
def slices (f : ℤ → α) (start dur : ℤ) : ℕ → List α
  | 0 => []
  | n + 1 => f (start - n * dur) :: slices f start dur n

/-- With the next slice the earlier ones move one place on. -/
theorem slices_advance (f : ℤ → α) (start dur : ℤ) (n : ℕ) :
    slices f (start + dur) dur (n + 1) = slices f start dur n ++ [f (start + dur)] := by
  induction n with
  | zero => simp [slices]
  | succ n ih =>
    have hshift : start + dur - (n + 1 : ℕ) * dur = start - n * dur := by
      push_cast
      ring
    rw [slices, ih, hshift]
    rfl

end Wheel
