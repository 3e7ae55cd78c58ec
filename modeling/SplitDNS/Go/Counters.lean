import SplitDNS.Go.Maps

/-! # Maps of counters

`m[k]++` on maps of unsigned counters, which wrap around.
-/

namespace Go.Map

variable {K : Type*} [DecidableEq K]

/-- `m[k]++`. -/
def increment (m : Map K UInt64) (k : K) : Map K UInt64 := m.insert k ((m.lookup k).getD 0 + 1)

def sumValues (m : Map K UInt64) : UInt64 := m.entries.foldr (fun e n => e.2 + n) 0

theorem foldr_add_kerase (l : List (Sigma fun _ : K => UInt64)) (k : K) :
    (List.dlookup k l).getD 0 + (List.kerase k l).foldr (fun e n => e.2 + n) 0 =
      l.foldr (fun e n => e.2 + n) 0 := by
  induction l with
  | nil => rfl
  | cons e l ih =>
    obtain ⟨a, v⟩ := e
    by_cases hk : k = a
    · subst hk
      have herase : List.kerase k (⟨k, v⟩ :: l) = l := List.kerase_cons_eq rfl
      rw [List.dlookup_cons_eq, herase]
      rfl
    · rw [List.dlookup_cons_ne l ⟨a, v⟩ hk, List.kerase_cons_ne hk, List.foldr_cons,
        List.foldr_cons, ← ih, ← UInt64.add_assoc, ← UInt64.add_assoc,
        UInt64.add_comm (Option.getD _ _)]

theorem sumValues_increment (m : Map K UInt64) (k : K) :
    (m.increment k).sumValues = m.sumValues + 1 := by
  have hsum : (m.increment k).sumValues =
      (m.lookup k).getD 0 + 1 + (List.kerase k m.entries).foldr (fun e n => e.2 + n) 0 := rfl
  rw [hsum, UInt64.add_assoc, UInt64.add_comm 1, ← UInt64.add_assoc]
  exact congrArg (· + 1) (foldr_add_kerase m.entries k)

end Go.Map
