import SplitDNS.Go.MapSize

/-! # Recency lists

A map whose entries stand in the order of their last use, the last used in
front. Putting or using a key brings it to the front, and putting cuts off at
the back what is over the capacity. A key stays in as long as fewer other keys
than the capacity have come to the front since its own last use.
-/

namespace Recency

open Go

variable {K V : Type*}

inductive Op (K V : Type*) where
  | put (k : K) (v : V)
  | use (k : K) (v : V)
  | drop (k : K)
  | clear
  | keep

def Op.touched : Op K V → Option K
  | put k _ => some k
  | use k _ => some k
  | _ => none

variable [DecidableEq K] {m : Map K V} {k k' x : K} {v : V} {n : ℕ}

def Op.apply (n : ℕ) (m : Map K V) : Op K V → Map K V
  | put k v => Map.keepFirst (m.insert k v) n
  | use k v => m.insert k v
  | drop k => m.erase k
  | clear => ∅
  | keep => m

def Op.given (k : K) : Op K V → Option V
  | put k' v => if k = k' then some v else none
  | use k' v => if k = k' then some v else none
  | _ => none

def ahead (m : Map K V) (k : K) : List K := m.keys.takeWhile (· ≠ k)

theorem ahead_insert_self : ahead (m.insert k v) k = [] := by
  simp [ahead, AList.keys_insert]

theorem mem_takeWhile_erase {l : List K} (hne : k' ≠ k)
    (h : x ∈ (l.erase k').takeWhile (· ≠ k)) : x ∈ l.takeWhile (· ≠ k) := by
  induction l with
  | nil => exact h
  | cons a l ih =>
    rw [List.takeWhile_cons]
    by_cases ha : a = k
    · subst ha
      rw [List.erase_cons_tail (by simpa using hne.symm), List.takeWhile_cons] at h
      simp at h
    · rw [if_pos (by simpa using ha)]
      by_cases hk : a = k'
      · subst hk
        rw [List.erase_cons_head] at h
        exact List.mem_cons_of_mem _ h
      · rw [List.erase_cons_tail (by simpa using hk), List.takeWhile_cons,
          if_pos (by simpa using ha)] at h
        rcases List.mem_cons.mp h with rfl | h
        · exact List.mem_cons_self
        · exact List.mem_cons_of_mem _ (ih h)

theorem mem_ahead_insert (hne : k' ≠ k) (h : x ∈ ahead (m.insert k' v) k) :
    x = k' ∨ x ∈ ahead m k := by
  rw [ahead, AList.keys_insert, List.takeWhile_cons, if_pos (by simpa using hne)] at h
  exact (List.mem_cons.mp h).imp_right (mem_takeWhile_erase hne)

theorem mem_ahead_erase (hne : k' ≠ k) (h : x ∈ ahead (m.erase k') k) : x ∈ ahead m k := by
  rw [ahead, AList.keys_erase] at h
  exact mem_takeWhile_erase hne h

theorem mem_takeWhile_take {l : List K} (h : x ∈ (l.take n).takeWhile (· ≠ k)) :
    x ∈ l.takeWhile (· ≠ k) := by
  induction l generalizing n with
  | nil => simp at h
  | cons a l ih =>
    rcases n with _ | n
    · simp at h
    · rw [List.take_succ_cons, List.takeWhile_cons] at h
      rw [List.takeWhile_cons]
      split_ifs at h ⊢
      · rcases List.mem_cons.mp h with rfl | h
        · exact List.mem_cons_self
        · exact List.mem_cons_of_mem _ (ih h)
      · exact h

theorem mem_ahead_keepFirst (h : x ∈ ahead (m.keepFirst n) k) : x ∈ ahead m k := by
  rw [ahead, AList.keys, Map.keepFirst, List.keys, List.map_take] at h
  exact mem_takeWhile_take h

theorem dlookup_take {l : List (Sigma fun _ : K => V)}
    (h : (l.keys.takeWhile (· ≠ k)).length < n) : (l.take n).dlookup k = l.dlookup k := by
  induction l generalizing n with
  | nil => simp
  | cons e l ih =>
    obtain ⟨a, b⟩ := e
    rcases n with _ | n
    · exact absurd h (Nat.not_lt_zero _)
    · rw [List.take_succ_cons]
      by_cases ha : k = a
      · subst ha
        rw [List.dlookup_cons_eq, List.dlookup_cons_eq]
      · rw [List.dlookup_cons_ne (l.take n) ⟨a, b⟩ ha, List.dlookup_cons_ne l ⟨a, b⟩ ha]
        apply ih
        rw [List.keys_cons, List.takeWhile_cons, if_pos (by simpa using Ne.symm ha),
          List.length_cons] at h
        exact Nat.lt_of_succ_lt_succ h

/-- A key with fewer keys in front of it than the capacity is not cut off. -/
theorem lookup_keepFirst (h : (ahead m k).length < n) : (m.keepFirst n).lookup k = m.lookup k :=
  dlookup_take h

theorem length_ahead_le {S : Finset K} (h : ∀ x ∈ ahead m k, x ∈ S) :
    (ahead m k).length ≤ S.card := by
  have hnodup : (ahead m k).Nodup := m.keys_nodup.sublist (List.takeWhile_sublist _)
  rw [← List.toFinset_card_of_nodup hnodup]
  exact Finset.card_le_card fun x hx => h x (List.mem_toFinset.mp hx)

theorem apply_front {op : Op K V} (hn : 0 < n) (h : op.touched = some k) :
    k ∈ op.apply n m ∧ ahead (op.apply n m) k = [] := by
  cases op with
  | put k' v =>
    obtain rfl := Option.some.inj h
    refine ⟨Map.mem_of_lookup (Map.lookup_keepFirst_insert m hn k' v), ?_⟩
    rw [List.eq_nil_iff_forall_not_mem]
    intro x hx
    have := mem_ahead_keepFirst hx
    rw [ahead_insert_self] at this
    cases this
  | use k' v =>
    obtain rfl := Option.some.inj h
    exact ⟨(AList.mem_insert m).mpr (Or.inl rfl), ahead_insert_self⟩
  | drop k' => cases h
  | clear => cases h
  | keep => cases h

/-- The list stays within its capacity if only what is in it is used. -/
theorem length_apply_le {op : Op K V} (hlen : m.entries.length ≤ n)
    (huse : ∀ k v, op = .use k v → k ∈ m) : (op.apply n m).entries.length ≤ n := by
  cases op with
  | put k v => exact List.length_take_le _ _
  | use k v => exact (Map.length_insert_of_mem (huse k v rfl) v).trans_le hlen
  | drop k => exact (Map.length_erase_le m k).trans hlen
  | clear => exact Nat.zero_le n
  | keep => exact hlen

/-- A value that is found was given to its key, or found before. -/
theorem lookup_apply {op : Op K V} (h : (op.apply n m).lookup k = some v) :
    op.given k = some v ∨ m.lookup k = some v := by
  have hinsert : ∀ k' v', (m.insert k' v').lookup k = some v →
      (if k = k' then some v' else none) = some v ∨ m.lookup k = some v := by
    intro k' v' h
    rw [Map.lookup_insert_eq_ite] at h
    split_ifs at h ⊢
    · exact Or.inl h
    · exact Or.inr h
  cases op with
  | put k' v' => exact hinsert k' v' (Map.lookup_of_lookup_keepFirst h)
  | use k' v' => exact hinsert k' v' h
  | drop k' => exact Or.inr (Map.lookup_erase_eq_some h).2
  | clear => cases h
  | keep => exact Or.inr h

/-- A key that is neither dropped nor cleared stays in, with no other keys in front of it than the
given ones, if these are fewer than the capacity and no others come to the front. -/
theorem apply_stays {S : Finset K} (hS : S.card < n) (hahead : ∀ x ∈ ahead m k, x ∈ S)
    {op : Op K V} (hclear : op ≠ .clear) (hdrop : op ≠ .drop k)
    (htouch : ∀ x ∈ op.touched, x = k ∨ x ∈ S) :
    (op.apply n m).lookup k = (op.given k).or (m.lookup k) ∧
      ∀ x ∈ ahead (op.apply n m) k, x ∈ S := by
  have hinsert : ∀ k' v, (k' = k ∨ k' ∈ S) → ∀ x ∈ ahead (m.insert k' v) k, x ∈ S := by
    intro k' v hk' x hx
    rcases eq_or_ne k' k with rfl | hne
    · rw [ahead_insert_self] at hx
      cases hx
    · rcases mem_ahead_insert hne hx with rfl | hx
      · exact hk'.resolve_left hne
      · exact hahead x hx
  have hlookup : ∀ k' v, (m.insert k' v).lookup k =
      (if k = k' then some v else none).or (m.lookup k) := by
    intro k' v
    rw [Map.lookup_insert_eq_ite]
    split_ifs <;> rfl
  cases op with
  | put k' v =>
    have hfront := hinsert k' v (htouch k' rfl)
    refine ⟨?_, fun x hx => hfront x (mem_ahead_keepFirst hx)⟩
    exact (lookup_keepFirst ((length_ahead_le hfront).trans_lt hS)).trans (hlookup k' v)
  | use k' v => exact ⟨hlookup k' v, hinsert k' v (htouch k' rfl)⟩
  | drop k' =>
    have hne : k' ≠ k := fun h => hdrop (h ▸ rfl)
    exact ⟨AList.lookup_erase_ne hne.symm, fun x hx => hahead x (mem_ahead_erase hne hx)⟩
  | clear => exact absurd rfl hclear
  | keep => exact ⟨rfl, hahead⟩

end Recency
