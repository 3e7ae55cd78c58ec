import SplitDNS.Dns.Labels

/-! # Names made of labels

Fully qualified names as lists of labels, each ended by a dot. For labels without
dots, one such name is at or below another exactly if its list ends with the
other's.
-/

namespace Dns

open Go Go.Strings

variable {ls zs : List Str}

def rooted (ls : List Str) : Str := ls.flatMap (· ++ ['.'])

theorem rooted_cons (l : Str) (ls : List Str) : rooted (l :: ls) = l ++ '.' :: rooted ls := by
  simp [rooted]

theorem join_append_dot (h : ls ≠ []) : join ls '.' ++ ['.'] = rooted ls := by
  induction ls with
  | nil => exact absurd rfl h
  | cons l ls ih =>
    cases ls with
    | nil => simp [join, rooted]
    | cons m ls =>
      rw [join_cons_cons, rooted_cons, ← ih (List.cons_ne_nil m ls)]
      simp

theorem split_rooted (hl : ∀ l ∈ ls, '.' ∉ l) : split (rooted ls) '.' = ls ++ [[]] := by
  induction ls with
  | nil => rfl
  | cons l ls ih =>
    rw [rooted_cons, split_append, split_of_not_mem (hl l (by simp)),
      ih fun l' hl' => hl l' (by simp [hl'])]
    rfl

theorem rooted_inj (hl : ∀ l ∈ ls, '.' ∉ l) (hz : ∀ z ∈ zs, '.' ∉ z)
    (h : rooted ls = rooted zs) : ls = zs := by
  have hsplit := congrArg (split · '.') h
  simp only [split_rooted hl, split_rooted hz] at hsplit
  exact List.append_cancel_right hsplit

theorem atOrBelow_rooted (hl : ∀ l ∈ ls, '.' ∉ l) (hz : ∀ z ∈ zs, '.' ∉ z) :
    AtOrBelow (rooted ls) (rooted zs) ↔ zs <:+ ls := by
  constructor
  · intro h
    induction ls with
    | nil =>
      rcases h with h | h
      · exact rooted_inj hl hz h ▸ List.suffix_rfl
      · simp [rooted] at h
    | cons l ls ih =>
      rcases h with h | h
      · exact rooted_inj hl hz h ▸ List.suffix_rfl
      · rw [rooted_cons] at h
        have hrest := ih (fun l' hl' => hl l' (by simp [hl']))
          (atOrBelow_of_dot_suffix (hl l (by simp)) h)
        exact hrest.trans (List.suffix_cons l ls)
  · rintro ⟨front, rfl⟩
    rcases List.eq_nil_or_concat front with rfl | ⟨front, l, rfl⟩
    · exact Or.inl rfl
    · refine Or.inr ⟨rooted front ++ l, ?_⟩
      simp [rooted]

end Dns
