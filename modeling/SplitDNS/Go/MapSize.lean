import Mathlib.Data.Finset.Card
import SplitDNS.Go.Maps

/-! # Sizes of maps

The number of entries of a map under insertions and deletions, and the bounds
on it from where the keys lie.
-/

namespace Go.Map

theorem length_entries {K V : Type*} (m : Map K V) : m.entries.length = m.keys.length :=
  (List.length_map _).symm

theorem length_eq_of_mem_iff {K V W : Type*} {m : Map K V} {m' : Map K W}
    (h : ∀ k, k ∈ m ↔ k ∈ m') :
    m.entries.length = m'.entries.length := by
  rw [length_entries, length_entries]
  exact ((List.perm_ext_iff_of_nodup m.keys_nodup m'.keys_nodup).mpr h).length_eq

theorem mem_iff_of_length_le {K V W : Type*} {m : Map K V} {m' : Map K W} {k : K}
    (hsub : ∀ k ∈ m, k ∈ m')
    (hlen : m'.entries.length ≤ m.entries.length) : k ∈ m ↔ k ∈ m' := by
  rw [length_entries, length_entries] at hlen
  exact ((m.keys_nodup.subperm fun k hk => hsub k hk).perm_of_length_le hlen).mem_iff

variable {K V : Type*} [DecidableEq K] {m : Map K V} {k : K}

theorem length_insert_of_mem (h : k ∈ m) (v : V) :
    (m.insert k v).entries.length = m.entries.length := by
  have hmem : k ∈ m.keys := h
  have hpos := List.length_pos_of_mem hmem
  rw [length_entries, length_entries, AList.keys_insert, List.length_cons,
    List.length_erase_of_mem hmem]
  omega

theorem length_insert_le (m : Map K V) (k : K) (v : V) :
    (m.insert k v).entries.length ≤ m.entries.length + 1 := by
  rw [length_entries, length_entries, AList.keys_insert, List.length_cons]
  exact Nat.succ_le_succ List.length_erase_le

theorem length_erase_of_mem (h : k ∈ m) : (m.erase k).entries.length + 1 = m.entries.length := by
  have hmem : k ∈ m.keys := h
  have hpos := List.length_pos_of_mem hmem
  rw [length_entries, length_entries, AList.keys_erase, List.length_erase_of_mem hmem]
  omega

theorem length_erase_le (m : Map K V) (k : K) :
    (m.erase k).entries.length ≤ m.entries.length :=
  (List.kerase_sublist k m.entries).length_le

theorem length_foldl_erase_le {α : Type*} (l : List α) (key : α → K) (m : Map K V) :
    (l.foldl (fun m x => m.erase (key x)) m).entries.length ≤ m.entries.length := by
  induction l generalizing m with
  | nil => exact le_rfl
  | cons x l ih => exact (ih _).trans (length_erase_le m (key x))

theorem length_le_card {s : Finset K} (h : ∀ k ∈ m, k ∈ s) : m.entries.length ≤ s.card := by
  rw [length_entries, ← List.toFinset_card_of_nodup m.keys_nodup]
  exact Finset.card_le_card fun k hk => h k (List.mem_toFinset.mp hk)

theorem length_le_of_injOn {f : K → ℕ} {n : ℕ} (hlt : ∀ k ∈ m, f k < n)
    (hinj : ∀ k ∈ m, ∀ k' ∈ m, f k = f k' → k = k') : m.entries.length ≤ n := by
  rw [length_entries, ← List.toFinset_card_of_nodup m.keys_nodup, ← Finset.card_range n]
  refine Finset.card_le_card_of_injOn f (fun k hk => ?_) fun k hk k' hk' heq => ?_
  · exact Finset.mem_coe.mpr (Finset.mem_range.mpr (hlt k (List.mem_toFinset.mp hk)))
  · exact hinj k (List.mem_toFinset.mp hk) k' (List.mem_toFinset.mp hk') heq

end Go.Map
