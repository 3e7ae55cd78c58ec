import SplitDNS.Go.Strings

/-! # Label-aligned suffixes

Names as strings of labels ended by dots. A name lies at or below an apex when
the apex is the whole name or what follows one of its dots.
-/

namespace Dns

open Go

variable {name apex apex' label s t z : Str}

/-- The name is the apex, or the apex follows one of its dots. -/
def AtOrBelow (name apex : Str) : Prop := name = apex ∨ '.' :: apex <:+ name

instance : Decidable (AtOrBelow name apex) := inferInstanceAs (Decidable (_ ∨ _))

theorem AtOrBelow.suffix (h : AtOrBelow name apex) : apex <:+ name := by
  rcases h with rfl | h
  · exact List.suffix_refl _
  · exact (List.suffix_cons _ _).trans h

theorem suffix_append_or {l₁ l₂ l₃ : Str} (h : l₁ <:+ l₂ ++ l₃) :
    l₁ <:+ l₃ ∨ ∃ l, l₁ = l ++ l₃ ∧ l <:+ l₂ := by
  rcases List.suffix_or_suffix_of_suffix h (List.suffix_append l₂ l₃) with h' | ⟨l, rfl⟩
  · exact Or.inl h'
  · exact Or.inr ⟨l, rfl, List.suffix_append_self_iff.mp h⟩

theorem atOrBelow_of_dot_suffix (hl : '.' ∉ label) (h : '.' :: z <:+ label ++ '.' :: t) :
    AtOrBelow t z := by
  rcases suffix_append_or h with h | ⟨l, hz, hs⟩
  · rcases List.suffix_cons_iff.mp h with h | h
    · exact Or.inl (List.cons.inj h).2.symm
    · exact Or.inr h
  · cases l with
    | nil => exact Or.inl (List.cons.inj hz).2.symm
    | cons c l =>
      obtain ⟨rfl, -⟩ := List.cons_eq_cons.mp hz
      exact absurd (hs.subset List.mem_cons_self) hl

theorem suffix_of_dot_suffix (hl : '.' ∉ label) (h : '.' :: z <:+ label ++ '.' :: t) : z <:+ t :=
  (atOrBelow_of_dot_suffix hl h).suffix

theorem atOrBelow_label (hl : '.' ∉ label) (h : AtOrBelow (label ++ '.' :: apex) apex') :
    apex' = label ++ '.' :: apex ∨ apex' <:+ apex := by
  rcases h with h | h
  · exact Or.inl h.symm
  · exact Or.inr (suffix_of_dot_suffix hl h)

theorem AtOrBelow.trans (h : AtOrBelow name apex) (h' : AtOrBelow apex apex') :
    AtOrBelow name apex' := by
  rcases h with rfl | h
  · exact h'
  · rcases h' with rfl | h'
    · exact Or.inr h
    · exact Or.inr (h'.trans ((List.suffix_cons _ _).trans h))

theorem AtOrBelow.total (h : AtOrBelow name apex) (h' : AtOrBelow name apex') :
    AtOrBelow apex apex' ∨ AtOrBelow apex' apex := by
  rcases h with rfl | h
  · exact Or.inl h'
  · rcases h' with rfl | h'
    · exact Or.inr (Or.inr h)
    · rcases List.suffix_or_suffix_of_suffix h h' with hs | hs
      · rcases List.suffix_cons_iff.mp hs with hs | hs
        · exact Or.inl (Or.inl (List.cons.inj hs).2)
        · exact Or.inr (Or.inr hs)
      · rcases List.suffix_cons_iff.mp hs with hs | hs
        · exact Or.inl (Or.inl (List.cons.inj hs).2.symm)
        · exact Or.inl (Or.inr hs)

end Dns
