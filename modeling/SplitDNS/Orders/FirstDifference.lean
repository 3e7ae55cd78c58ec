import Mathlib.Data.Set.Basic

/-! # Orders by the first difference

Lists compared by the first place where they differ, the shorter first if there
is none. The comparison is a strict weak order unless three lists meet at one
place in three elements that are not ordered, or in two that are tied.
-/

namespace Orders

variable {α : Type*}

/-- A strict weak order on a set: strict, with a transitive relation of being incomparable. -/
structure StrictWeakOn (S : Set α) (r : α → α → Prop) : Prop where
  irrefl : ∀ a ∈ S, ¬ r a a
  asymm : ∀ a ∈ S, ∀ b ∈ S, r a b → ¬ r b a
  trans : ∀ a ∈ S, ∀ b ∈ S, ∀ c ∈ S, r a b → r b c → r a c
  incomp_trans : ∀ a ∈ S, ∀ b ∈ S, ∀ c ∈ S,
    ¬ r a b ∧ ¬ r b a → ¬ r b c ∧ ¬ r c b → ¬ r a c ∧ ¬ r c a

/-- An asymmetric relation is a strict weak order if no element fits between two related ones
without being related to either. -/
theorem strictWeakOn_iff {S : Set α} {r : α → α → Prop} (hasymm : ∀ a b, r a b → ¬ r b a) :
    StrictWeakOn S r ↔ ∀ a ∈ S, ∀ b ∈ S, ∀ c ∈ S, r a c → r a b ∨ r b c := by
  constructor
  · intro h a ha b hb c hc hac
    by_contra hno
    obtain ⟨hab, hbc⟩ := not_or.mp hno
    have hba : ¬ r b a := fun hba => hbc (h.trans b hb a ha c hc hba hac)
    have hcb : ¬ r c b := fun hcb => hab (h.trans a ha c hc b hb hac hcb)
    exact (h.incomp_trans a ha b hb c hc ⟨hab, hba⟩ ⟨hbc, hcb⟩).1 hac
  · intro h
    refine ⟨fun a _ haa => hasymm a a haa haa, fun a _ b _ => hasymm a b, ?_, ?_⟩
    · intro a ha b hb c hc hab hbc
      exact (h a ha c hc b hb hab).resolve_right (hasymm b c hbc)
    · rintro a ha b hb c hc ⟨hab, hba⟩ ⟨hbc, hcb⟩
      exact ⟨fun hac => (h a ha b hb c hc hac).elim hab hbc,
        fun hca => (h c hc b hb a ha hca).elim hcb hba⟩

variable [DecidableEq α]

/-- The elements at the first difference are compared, or else the lengths. -/
def lessBy (lt : α → α → Bool) : List α → List α → Bool
  | x :: s, y :: t => if x = y then lessBy lt s t else lt x y
  | s, t => decide (s.length < t.length)

variable {lt : α → α → Bool} {x y z : α} {a b c p s t r : List α}

theorem lessBy_cons_self (x : α) (s t : List α) :
    lessBy lt (x :: s) (x :: t) = lessBy lt s t := if_pos rfl

theorem lessBy_cons_of_ne (h : x ≠ y) (s t : List α) :
    lessBy lt (x :: s) (y :: t) = lt x y := if_neg h

theorem lessBy_append (p s t : List α) : lessBy lt (p ++ s) (p ++ t) = lessBy lt s t := by
  induction p with
  | nil => rfl
  | cons x p ih => exact (lessBy_cons_self x _ _).trans ih

theorem lessBy_asymm (hlt : ∀ x y, lt x y = true → lt y x = false) :
    ∀ s t, lessBy lt s t = true → ¬ lessBy lt t s = true
  | [], [], h => by cases h
  | [], _ :: _, _ => Bool.false_ne_true
  | _ :: _, [], h => by cases h
  | x :: s, y :: t, h => by
    by_cases hxy : x = y
    · subst hxy
      rw [lessBy_cons_self] at h ⊢
      exact lessBy_asymm hlt s t h
    · rw [lessBy_cons_of_ne hxy] at h
      rw [lessBy_cons_of_ne (Ne.symm hxy), hlt x y h]
      exact Bool.false_ne_true

/-- Two lists that are equal, or first differ in elements that are tied. -/
def Tied (lt : α → α → Bool) (s t : List α) : Prop :=
  s = t ∨ ∃ p x y s' t', s = p ++ x :: s' ∧ t = p ++ y :: t' ∧ x ≠ y ∧ lt x y = false ∧
    lt y x = false

omit [DecidableEq α] in
theorem Tied.cons (x : α) (h : Tied lt s t) : Tied lt (x :: s) (x :: t) := by
  rcases h with rfl | ⟨p, y, z, s', t', rfl, rfl, h⟩
  · exact Or.inl rfl
  · exact Or.inr ⟨x :: p, y, z, s', t', rfl, rfl, h⟩

theorem tied_of_not_lessBy : ∀ {s t : List α}, lessBy lt s t = false → lessBy lt t s = false →
    Tied lt s t
  | [], [], _, _ => Or.inl rfl
  | [], _ :: _, h, _ => by cases h
  | _ :: _, [], _, h => by cases h
  | x :: s, y :: t, h, h' => by
    by_cases hxy : x = y
    · subst hxy
      rw [lessBy_cons_self] at h h'
      exact (tied_of_not_lessBy h h').cons x
    · rw [lessBy_cons_of_ne hxy] at h
      rw [lessBy_cons_of_ne (Ne.symm hxy)] at h'
      exact Or.inr ⟨[], x, y, s, t, rfl, rfl, hxy, h, h'⟩

theorem Tied.not_lessBy (h : Tied lt s t) : lessBy lt s t = false := by
  rcases h with rfl | ⟨p, x, y, s', t', rfl, rfl, hne, h, -⟩
  · rw [← List.append_nil s, lessBy_append]
    rfl
  · rw [lessBy_append, lessBy_cons_of_ne hne, h]

/-- Three lists that meet in three elements, the first before the third and the second not
between them. -/
def Unordered (lt : α → α → Bool) (a b c : List α) : Prop :=
  ∃ p x y z s t r, a = p ++ x :: s ∧ b = p ++ y :: t ∧ c = p ++ z :: r ∧
    x ≠ y ∧ y ≠ z ∧ x ≠ z ∧ lt x z = true ∧ lt x y = false ∧ lt y z = false

/-- Three lists that meet in two tied elements, with the two that go on together in order. -/
def Bypassed (lt : α → α → Bool) (a b c : List α) : Prop :=
  ∃ p x y s t r, a = p ++ x :: s ∧ b = p ++ y :: t ∧ c = p ++ x :: r ∧
    x ≠ y ∧ lt x y = false ∧ lt y x = false ∧ lessBy lt s r = true

omit [DecidableEq α] in
theorem Unordered.cons (x : α) (h : Unordered lt a b c) :
    Unordered lt (x :: a) (x :: b) (x :: c) := by
  obtain ⟨p, u, v, w, s, t, r, rfl, rfl, rfl, h⟩ := h
  exact ⟨x :: p, u, v, w, s, t, r, rfl, rfl, rfl, h⟩

theorem Bypassed.cons (x : α) (h : Bypassed lt a b c) : Bypassed lt (x :: a) (x :: b) (x :: c) := by
  obtain ⟨p, u, v, s, t, r, rfl, rfl, rfl, h⟩ := h
  exact ⟨x :: p, u, v, s, t, r, rfl, rfl, rfl, h⟩

/-- A list that is not between two lists in order meets them in one of the two ways. -/
theorem unordered_or_bypassed : ∀ {a b c : List α}, lessBy lt a c = true → lessBy lt a b = false →
    lessBy lt b c = false → Unordered lt a b c ∨ Bypassed lt a b c
  | [], [], [], h, _, _ => by cases h
  | [], [], _ :: _, _, _, h => by cases h
  | [], _ :: _, _, _, h, _ => by cases h
  | _ :: _, _, [], h, _, _ => by cases h
  | _ :: _, [], _ :: _, _, _, h => by cases h
  | x :: a, y :: b, z :: c, hac, hab, hbc => by
    by_cases hxz : x = z
    · subst hxz
      by_cases hxy : x = y
      · subst hxy
        rw [lessBy_cons_self] at hac hab hbc
        exact (unordered_or_bypassed hac hab hbc).imp (.cons x) (.cons x)
      · rw [lessBy_cons_self] at hac
        rw [lessBy_cons_of_ne hxy] at hab
        rw [lessBy_cons_of_ne (Ne.symm hxy)] at hbc
        exact Or.inr ⟨[], x, y, a, b, c, rfl, rfl, rfl, hxy, hab, hbc, hac⟩
    · rw [lessBy_cons_of_ne hxz] at hac
      by_cases hxy : x = y
      · -- The second list goes on with the first, so it is before the third as well.
        subst hxy
        rw [lessBy_cons_of_ne hxz, hac] at hbc
        cases hbc
      · rw [lessBy_cons_of_ne hxy] at hab
        by_cases hyz : y = z
        · subst hyz
          rw [hac] at hab
          cases hab
        · rw [lessBy_cons_of_ne hyz] at hbc
          exact Or.inl ⟨[], x, y, z, a, b, c, rfl, rfl, rfl, hxy, hyz, hxz, hac, hab, hbc⟩

theorem Unordered.lessBy (h : Unordered lt a b c) :
    lessBy lt a c = true ∧ lessBy lt a b = false ∧ lessBy lt b c = false := by
  obtain ⟨p, x, y, z, s, t, r, rfl, rfl, rfl, hxy, hyz, hxz, hac, hab, hbc⟩ := h
  simp only [lessBy_append, lessBy_cons_of_ne hxy, lessBy_cons_of_ne hyz, lessBy_cons_of_ne hxz]
  exact ⟨hac, hab, hbc⟩

theorem Bypassed.lessBy (h : Bypassed lt a b c) :
    lessBy lt a c = true ∧ lessBy lt a b = false ∧ lessBy lt b c = false := by
  obtain ⟨p, x, y, s, t, r, rfl, rfl, rfl, hxy, hab, hbc, hac⟩ := h
  simp only [lessBy_append, lessBy_cons_self, lessBy_cons_of_ne hxy,
    lessBy_cons_of_ne (Ne.symm hxy)]
  exact ⟨hac, hab, hbc⟩

end Orders
