import SplitDNS.Go.Strings

/-! # Texts of several fields

Fields that are joined with a separator can be told apart if none of them has the
separator in it, and only then. The text of bytes in hexadecimal has no separator.
-/

namespace Go.Strings

variable {l l' : List Str} {sep : Char}

theorem append_sep_inj {s s' t t' : Str} (h : sep ∉ s) (h' : sep ∉ s')
    (heq : s ++ sep :: t = s' ++ sep :: t') : s = s' ∧ t = t' := by
  induction s generalizing s' with
  | nil =>
    rcases s' with _ | ⟨c, s'⟩
    · exact ⟨rfl, (List.cons.inj heq).2⟩
    · exact absurd ((List.cons.inj heq).1 ▸ List.mem_cons_self) h'
  | cons c s ih =>
    rcases s' with _ | ⟨c', s'⟩
    · exact absurd ((List.cons.inj heq).1 ▸ List.mem_cons_self) h
    · obtain ⟨rfl, hrest⟩ := List.cons.inj heq
      obtain ⟨rfl, rfl⟩ := ih (List.not_mem_of_not_mem_cons h)
        (List.not_mem_of_not_mem_cons h') hrest
      exact ⟨rfl, rfl⟩

theorem count_join (hne : l ≠ []) (sep : Char) :
    (join l sep).count sep + 1 = l.flatten.count sep + l.length := by
  induction l with
  | nil => exact absurd rfl hne
  | cons s l ih =>
    rcases l with _ | ⟨t, l⟩
    · simp [join]
    · have hrest := ih (List.cons_ne_nil t l)
      rw [join_cons_cons, List.count_append, List.count_cons_self, List.flatten_cons,
        List.count_append, List.length_cons]
      omega

theorem split_join (hne : l ≠ []) (h : ∀ s ∈ l, sep ∉ s) : split (join l sep) sep = l :=
  List.splitOn_intercalate sep h hne

theorem eq_of_join_eq (hlen : l'.length = l.length) (h : ∀ s ∈ l, sep ∉ s)
    (heq : join l' sep = join l sep) : l' = l := by
  rcases eq_or_ne l [] with rfl | hne
  · exact List.length_eq_zero_iff.mp hlen
  · have hne' : l' ≠ [] := by
      rintro rfl
      exact hne (List.length_eq_zero_iff.mp hlen.symm)
    have hnone : l.flatten.count sep = 0 := by
      refine List.count_eq_zero.mpr fun hmem => ?_
      obtain ⟨s, hs, hsep⟩ := List.mem_flatten.mp hmem
      exact h s hs hsep
    have hcount := count_join hne sep
    have hcount' := count_join hne' sep
    rw [heq] at hcount'
    have hnone' : l'.flatten.count sep = 0 := by omega
    have h' : ∀ s ∈ l', sep ∉ s := by
      intro s hs hsep
      exact List.count_eq_zero.mp hnone' (List.mem_flatten.mpr ⟨s, hs, hsep⟩)
    rw [← split_join hne' h', heq, split_join hne h]

theorem exists_join_eq (hlen : 2 ≤ l.length) (h : ∃ s ∈ l, sep ∈ s) :
    ∃ l', l'.length = l.length ∧ l' ≠ l ∧ join l' sep = join l sep := by
  induction l with
  | nil => cases hlen
  | cons s l ih =>
    rcases l with _ | ⟨t, l⟩
    · simp at hlen
    · by_cases hs : sep ∈ s
      · -- the rest of the field goes to the next one
        obtain ⟨a, b, rfl⟩ := List.append_of_mem hs
        refine ⟨a :: (b ++ sep :: t) :: l, rfl, ?_, ?_⟩
        · intro heq
          simpa using (List.cons.inj heq).1
        · rcases l with _ | ⟨u, l⟩
          · simp [join]
          · simp [join_cons_cons]
      · rcases l with _ | ⟨u, l⟩
        · -- the start of the last field goes to the one before
          have ht : sep ∈ t := by
            obtain ⟨x, hx, hsep⟩ := h
            rcases List.mem_cons.mp hx with rfl | hx
            · exact absurd hsep hs
            · exact List.mem_singleton.mp hx ▸ hsep
          obtain ⟨a, b, rfl⟩ := List.append_of_mem ht
          refine ⟨[s ++ sep :: a, b], rfl, ?_, by simp [join]⟩
          intro heq
          simpa using (List.cons.inj heq).1
        · have htail : ∃ x ∈ t :: u :: l, sep ∈ x := by
            obtain ⟨x, hx, hsep⟩ := h
            rcases List.mem_cons.mp hx with rfl | hx
            · exact absurd hsep hs
            · exact ⟨x, hx, hsep⟩
          obtain ⟨l', hlen', hne, heq⟩ := ih (by simp) htail
          obtain ⟨t', l', rfl⟩ := List.exists_cons_of_length_eq_add_one hlen'
          refine ⟨s :: t' :: l', by simpa using hlen', ?_, ?_⟩
          · intro hcons
            exact hne (List.cons.inj hcons).2
          · rw [join_cons_cons s t' l', heq, join_cons_cons s t (u :: l)]

section Hex

/-- `hex.EncodeToString`. -/
def hexEncode (bytes : List UInt8) : Str :=
  bytes.flatMap fun b => [Nat.digitChar (b.toNat / 16), Nat.digitChar (b.toNat % 16)]

theorem digitChar_inj {m n : ℕ} (hm : m < 16) (hn : n < 16) (h : m.digitChar = n.digitChar) :
    m = n := by
  have hall : ∀ a b : Fin 16, Nat.digitChar a = Nat.digitChar b → a = b := by decide
  exact congrArg Fin.val (hall ⟨m, hm⟩ ⟨n, hn⟩ h)

theorem hexEncode_injective : Function.Injective hexEncode := by
  intro bs
  induction bs with
  | nil =>
    rintro (_ | ⟨b, bs⟩) h
    · rfl
    · cases h
  | cons a as ih =>
    rintro (_ | ⟨b, bs⟩) h
    · cases h
    · simp only [hexEncode, List.flatMap_cons, List.cons_append, List.nil_append,
        List.cons.injEq] at h
      obtain ⟨hhigh, hlow, hrest⟩ := h
      have ha := a.toNat_lt
      have hb := b.toNat_lt
      have hhigh := digitChar_inj (by omega) (by omega) hhigh
      have hlow := digitChar_inj (by omega) (by omega) hlow
      rw [ih hrest, UInt8.toNat_inj.mp (show a.toNat = b.toNat by omega)]

theorem mem_hexEncode {bytes : List UInt8} {c : Char} (h : c ∈ hexEncode bytes) :
    ∃ d : Fin 16, c = Nat.digitChar d := by
  obtain ⟨b, -, hc⟩ := List.mem_flatMap.mp h
  have hb := b.toNat_lt
  rcases List.mem_cons.mp hc with rfl | hc
  · exact ⟨⟨b.toNat / 16, by omega⟩, rfl⟩
  · exact ⟨⟨b.toNat % 16, by omega⟩, List.mem_singleton.mp hc⟩

end Hex

end Go.Strings
