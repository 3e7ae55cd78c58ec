import Mathlib.Data.List.Sort

/-! # Sorting

`sort.Slice` by a key. The order of elements with equal keys is not specified,
so a use of it is any function that returns a sorted permutation.
-/

namespace Go

/-- A use of `sort.Slice` that compares the keys of the elements. -/
structure SliceSort {α β : Type*} [LinearOrder β] (key : α → β) where
  sort : List α → List α
  perm : ∀ l, (sort l).Perm l
  sorted : ∀ l, (sort l).Pairwise fun a b => key a ≤ key b

instance {α β : Type*} [LinearOrder β] (key : α → β) : Inhabited (SliceSort key) where
  default :=
    { sort := List.insertionSort fun a b => key a ≤ key b
      perm := List.perm_insertionSort _
      sorted := by
        have : Std.Total fun a b : α => key a ≤ key b := ⟨fun a b => le_total (key a) (key b)⟩
        have : IsTrans α fun a b => key a ≤ key b := ⟨fun _ _ _ => le_trans⟩
        exact List.pairwise_insertionSort _ }

end Go
