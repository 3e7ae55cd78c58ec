import Mathlib.Algebra.GroupWithZero.Nat
import Mathlib.Algebra.Order.Ring.Int
import Mathlib.Data.List.Basic
import Mathlib.Tactic.Linarith
import SplitDNS.Go.Basic

/-! # Slices

Lists with one element changed in place, and lists of which at most one element
is selected.
-/

namespace Go

variable {α : Type*} {f : α → α} {l : List α} {i : ℕ}

theorem mem_or_of_mem_modify {b : α} (h : b ∈ l.modify i f) : b ∈ l ∨ ∃ a ∈ l, f a = b := by
  induction l generalizing i with
  | nil => simp at h
  | cons a l ih =>
    cases i with
    | zero =>
      rcases List.mem_cons.mp h with rfl | h
      · exact Or.inr ⟨a, List.mem_cons_self, rfl⟩
      · exact Or.inl (List.mem_cons_of_mem a h)
    | succ i =>
      rcases List.mem_cons.mp h with rfl | h
      · exact Or.inl List.mem_cons_self
      · rcases ih h with h | ⟨a', ha', rfl⟩
        · exact Or.inl (List.mem_cons_of_mem a h)
        · exact Or.inr ⟨a', List.mem_cons_of_mem a ha', rfl⟩

theorem head?_modify (f : α → α) (l : List α) (i : ℕ) :
    (l.modify i f).head? = if i = 0 then l.head?.map f else l.head? := by
  cases l <;> cases i <;> simp

theorem map_modify_eq {β : Type*} {g : α → β} (h : ∀ a, g (f a) = g a) (l : List α) (i : ℕ) :
    (l.modify i f).map g = l.map g := by
  induction l generalizing i with
  | nil => simp
  | cons a l ih => cases i <;> simp [h, ih]

theorem pairwise_modify {R : α → α → Prop} (hleft : ∀ a b, R a b → R (f a) b)
    (hright : ∀ a b, R a b → R a (f b)) (h : l.Pairwise R) (i : ℕ) :
    (l.modify i f).Pairwise R := by
  induction l generalizing i with
  | nil => simp
  | cons a l ih =>
    obtain ⟨hhead, htail⟩ := List.pairwise_cons.mp h
    cases i with
    | zero => exact List.pairwise_cons.mpr ⟨fun b hb => hleft a b (hhead b hb), htail⟩
    | succ i =>
      refine List.pairwise_cons.mpr ⟨fun b hb => ?_, ih htail i⟩
      rcases mem_or_of_mem_modify hb with hmem | ⟨b', hb', rfl⟩
      · exact hhead b hmem
      · exact hright a b' (hhead b' hb')

theorem getElem?_set_eq_some {j : ℕ} {a b : α} (h : (l.set i a)[j]? = some b) :
    i = j ∧ b = a ∨ i ≠ j ∧ l[j]? = some b := by
  rw [List.getElem?_set] at h
  split_ifs at h with hij
  · cases h
    exact .inl ⟨hij, rfl⟩
  · exact .inr ⟨hij, h⟩

theorem getElem?_concat_eq_some {a b : α} (h : (l ++ [a])[i]? = some b) :
    l[i]? = some b ∨ i = l.length ∧ b = a := by
  rcases Nat.lt_or_ge i l.length with hlt | hge
  · rw [List.getElem?_append_left hlt] at h
    exact .inl h
  · rw [List.getElem?_append_right hge] at h
    obtain ⟨hlt, rfl⟩ := List.getElem?_eq_some_iff.mp h
    have hlt' : i - l.length < 1 := hlt
    exact .inr ⟨by omega, by simp⟩

theorem sum_map_set {a b : α} (h : l[i]? = some a) (g : α → ℕ) :
    ((l.set i b).map g).sum + g a = (l.map g).sum + g b := by
  induction l generalizing i with
  | nil => simp at h
  | cons c l ih =>
    cases i with
    | zero =>
      obtain rfl : c = a := by simpa using h
      simp
      omega
    | succ i =>
      have hl := ih (by simpa using h)
      simp only [List.set_cons_succ, List.map_cons, List.sum_cons]
      omega

theorem countP_set {p : α → Bool} {a b : α} (h : l[i]? = some a) :
    (l.set i b).countP p + (if p a then 1 else 0) = l.countP p + if p b then 1 else 0 := by
  induction l generalizing i with
  | nil => simp at h
  | cons c l ih =>
    cases i with
    | zero =>
      obtain rfl : c = a := by simpa using h
      simp only [List.set_cons_zero, List.countP_cons]
      omega
    | succ i =>
      have hl := ih (by simpa using h)
      simp only [List.set_cons_succ, List.countP_cons]
      omega

theorem mean_bounds {l : List Duration} {lo hi : Duration} (hl : l ≠ [])
    (h : ∀ d ∈ l, lo ≤ d ∧ d ≤ hi) :
    lo ≤ l.sum.tdiv l.length ∧ l.sum.tdiv l.length ≤ hi := by
  have hsum : lo * l.length ≤ l.sum ∧ l.sum ≤ hi * l.length := by
    clear hl
    induction l with
    | nil => simp
    | cons d l ih =>
      have hd := h d List.mem_cons_self
      have hrest := ih fun d hd => h d (List.mem_cons_of_mem _ hd)
      rw [List.sum_cons, List.length_cons, Nat.cast_add, Nat.cast_one, mul_add, mul_add]
      constructor <;> linarith
  have hpos : (0 : ℤ) < l.length := by
    have := List.length_pos_of_ne_nil hl
    omega
  rcases le_total 0 l.sum with hnonneg | hneg
  · rw [Int.tdiv_eq_ediv_of_nonneg hnonneg]
    refine ⟨(Int.le_ediv_iff_mul_le hpos).mpr hsum.1, ?_⟩
    exact Int.ediv_le_of_le_mul hpos hsum.2
  · have hflip : l.sum.tdiv l.length = -((-l.sum) / l.length) := by
      rw [← Int.tdiv_eq_ediv_of_nonneg (by linarith), Int.neg_tdiv, neg_neg]
    rw [hflip]
    constructor
    · have := Int.ediv_le_of_le_mul hpos (show -l.sum ≤ -lo * l.length by linarith)
      linarith
    · have := (Int.le_ediv_iff_mul_le hpos).mpr (show -hi * l.length ≤ -l.sum by linarith)
      linarith

theorem length_filter_le_one {p : α → Bool} (h : l.Pairwise fun _ b => p b = false) :
    (l.filter p).length ≤ 1 := by
  induction l with
  | nil => simp
  | cons a l ih =>
    have hnone : l.filter p = [] :=
      List.filter_eq_nil_iff.mpr fun b hb => by simp [(List.pairwise_cons.mp h).1 b hb]
    rw [List.filter_cons, hnone]
    split <;> simp

end Go
