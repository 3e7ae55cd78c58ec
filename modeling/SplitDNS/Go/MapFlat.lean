import SplitDNS.Go.Maps

/-! # Maps as multisets

All that the entries of a map hold, in one list. Its order is that of the entries
and says nothing, so the lists are compared up to permutation.
-/

namespace Go.Map

variable {K V β : Type} [DecidableEq K] {f : K → V → List β} {m : Map K V} {k : K} {v : V} {b : β}

def flat (f : K → V → List β) (m : Map K V) : List β := m.entries.flatMap fun e => f e.1 e.2

theorem flat_insert : flat f (m.insert k v) = f k v ++ flat f (m.erase k) := rfl

theorem flat_perm_erase (f : K → V → List β) (m : Map K V) (k : K) :
    (flat f m).Perm ((m.lookup k).elim [] (f k) ++ flat f (m.erase k)) := by
  by_cases hk : k ∈ m
  · obtain ⟨v, front, back, hfront, hentries, hrest⟩ := List.exists_of_kerase (AList.mem_keys.mp hk)
    have hlookup : m.lookup k = some v := by
      refine AList.mem_lookup_iff.mpr ?_
      rw [hentries]
      simp
    have herase : flat f (m.erase k) = front.flatMap (fun e => f e.1 e.2) ++
        back.flatMap fun e => f e.1 e.2 := by
      rw [flat, ← List.flatMap_append, ← hrest]
      rfl
    rw [hlookup, herase, flat, hentries, List.flatMap_append, List.flatMap_cons]
    exact List.perm_append_comm_assoc _ _ _
  · have hnone : m.lookup k = none := AList.lookup_eq_none.mpr hk
    have herase : (m.erase k).entries = m.entries :=
      List.kerase_of_notMem_keys fun h => hk (AList.mem_keys.mpr h)
    rw [hnone, flat, flat, herase]
    exact List.Perm.refl _

theorem flat_insert_concat (h : (f k v).Perm ((m.lookup k).elim [] (f k) ++ [b])) :
    (flat f (m.insert k v)).Perm (flat f m ++ [b]) := by
  have hmove : ((m.lookup k).elim [] (f k) ++ [b] ++ flat f (m.erase k)).Perm
      ((m.lookup k).elim [] (f k) ++ flat f (m.erase k) ++ [b]) := by
    rw [List.append_assoc, List.append_assoc]
    exact List.perm_append_comm.append_left _
  rw [flat_insert]
  exact (h.append_right _).trans (hmove.trans ((flat_perm_erase f m k).symm.append_right _))

end Go.Map
