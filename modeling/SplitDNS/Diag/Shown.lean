import SplitDNS.Diag.Redact
import SplitDNS.Toml.Documents

/-! # Texts that look the same in the configuration panel

Two texts are shown the same exactly if their lines agree outside of what the two
expressions find. The mark that stands for a value is never mistaken for a part of
the file, so nothing else makes two texts look the same.
-/

namespace SplitDNS.Diag

open Go Go.Strings Toml

/-! ## Replaced values -/

theorem replaceInline_append (b : Option Char) (v t : Str) :
    replaceInline b v.length (v ++ t) = replaceInline (v.getLast?.or b) 0 t := by
  induction v generalizing b with
  | nil => rfl
  | cons c v ih =>
    rw [List.length_cons, List.cons_append, replaceInline, ih]
    cases v <;> simp [List.getLast?_cons]

/-- A secret key with an equals sign and a value is found at the start of a text. -/
def Found (before : Option Char) (s : Str) : Prop :=
  ∃ kept v t, s = kept ++ (v ++ t) ∧ Finds before kept v t

theorem replaceInline_of_finds {b : Option Char} {kept v t : Str} (h : Finds b kept v t) :
    replaceInline b 0 (kept ++ (v ++ t)) =
      kept ++ (redacted ++ replaceInline v.getLast? 0 t) := by
  have hmatch : matchInline b (kept ++ (v ++ t)) = some (kept, kept.length + v.length) :=
    matchInline_iff.mpr ⟨v, t, rfl, h, rfl⟩
  obtain ⟨c, kept', rfl, -⟩ := h.2.1.exists_cons
  have hv := h.2.2.ends.1
  have hskip := replaceInline_append (some c) (kept' ++ v) t
  have hlast : (kept' ++ v).getLast?.or (some c) = v.getLast? := by
    rw [List.getLast?_append_of_ne_nil _ hv]
    rw [List.getLast?_eq_some_getLast hv]
    rfl
  rw [hlast, List.append_assoc] at hskip
  rw [List.cons_append] at hmatch ⊢
  rw [replaceInline, hmatch]
  dsimp only
  rw [List.length_cons, Nat.add_right_comm, Nat.add_sub_cancel, ← List.length_append, hskip,
    List.append_assoc]

theorem replaceInline_cons {b : Option Char} {c : Char} {s : Str} (h : ¬ Found b (c :: s)) :
    replaceInline b 0 (c :: s) = c :: replaceInline (some c) 0 s := by
  rw [replaceInline]
  rcases hmatch : matchInline b (c :: s) with _ | ⟨kept, n⟩
  · rfl
  · obtain ⟨v, t, hs, hfinds, -⟩ := matchInline_iff.mp hmatch
    exact absurd ⟨kept, v, t, hs, hfinds⟩ h

theorem head?_replaceInline (b : Option Char) (s : Str) :
    (replaceInline b 0 s).head? = s.head? := by
  cases s with
  | nil => rfl
  | cons c s =>
    by_cases h : Found b (c :: s)
    · obtain ⟨kept, v, t, hs, hfinds⟩ := h
      obtain ⟨d, kept', rfl, -⟩ := hfinds.2.1.exists_cons
      rw [hs, replaceInline_of_finds hfinds]
      rfl
    · rw [replaceInline_cons h]
      rfl

theorem mem_replaceInline {b : Option Char} {n : ℕ} {s : Str} {c : Char}
    (h : c ∈ replaceInline b n s) : c ∈ s ∨ c ∈ redacted := by
  induction s generalizing b n with
  | nil => exact Or.inl h
  | cons d s ih =>
    unfold replaceInline at h
    split at h
    · exact (ih h).imp_left (List.mem_cons_of_mem d)
    · split at h
      · rename_i kept m hmatch
        obtain ⟨v, t, hs, -⟩ := matchInline_iff.mp hmatch
        rw [List.mem_append, List.mem_append] at h
        rcases h with (h | h) | h
        · exact Or.inl (hs ▸ List.mem_append_left (v ++ t) h)
        · exact Or.inr h
        · exact (ih h).imp_left (List.mem_cons_of_mem d)
      · rcases List.mem_cons.mp h with rfl | h
        · exact Or.inl List.mem_cons_self
        · exact (ih h).imp_left (List.mem_cons_of_mem d)

/-- A line is copied up to the first value that is replaced. -/
theorem exists_copied (b : Option Char) (s : Str) : ∃ u r out, s = u ++ r ∧
    replaceInline b 0 s = u ++ out ∧ (r = [] ∧ out = [] ∨ '=' ∈ u ∧ redacted <+: out ∧
      ∃ v t, r = v ++ t ∧ IsValue v t) := by
  induction s generalizing b with
  | nil => exact ⟨[], [], [], rfl, rfl, Or.inl ⟨rfl, rfl⟩⟩
  | cons c s ih =>
    by_cases h : Found b (c :: s)
    · obtain ⟨kept, v, t, hs, hfinds⟩ := h
      obtain ⟨w, after, hw, -, -⟩ := hfinds.2.1.exists_equals
      refine ⟨kept, v ++ t, _, hs, hs ▸ replaceInline_of_finds hfinds, Or.inr ⟨?_,
        List.prefix_append _ _, v, t, rfl, hfinds.2.2⟩⟩
      rw [hw]
      exact List.mem_append_right w List.mem_cons_self
    · obtain ⟨u, r, out, rfl, hrep, hend⟩ := ih (some c)
      refine ⟨c :: u, r, out, rfl, ?_, hend.imp_right (And.imp_left (List.mem_cons_of_mem c))⟩
      rw [replaceInline_cons h, hrep]
      rfl

theorem exists_of_first {u out w s : Str} (hu : '=' ∈ u) (hw : '=' ∉ w)
    (h : u ++ out = w ++ '=' :: s) : ∃ u', u = w ++ '=' :: u' ∧ u' ++ out = s := by
  obtain ⟨a, u', rfl, ha⟩ := List.eq_append_cons_of_mem hu
  rw [List.append_assoc, List.cons_append] at h
  obtain ⟨rfl, rfl⟩ := append_cons_inj ha hw h
  exact ⟨u', rfl, rfl⟩

/-- Where the mark is shown after a name and an equals sign, the line has them and a value. -/
theorem exists_of_replaceInline {b : Option Char} {s kept z : Str} (hkept : Kept kept)
    (h : replaceInline b 0 s = kept ++ (redacted ++ z)) :
    ∃ v t, s = kept ++ (v ++ t) ∧ IsValue v t := by
  obtain ⟨u, r, out, rfl, hrep, ⟨rfl, rfl⟩ | ⟨hu, ⟨out', rfl⟩, v, t, rfl, hv⟩⟩ := exists_copied b s
  · rw [List.append_nil] at hrep h ⊢
    obtain ⟨v, t, hvalue, hv⟩ := exists_isValue_quote (redacted.tail ++ z)
    exact ⟨v, t, (hrep.symm.trans h).trans (congrArg (kept ++ ·) hvalue), hv⟩
  · obtain ⟨w, after, rfl, hw, hafter⟩ := hkept.exists_equals
    rw [hrep, List.append_assoc, List.cons_append] at h
    obtain ⟨u', rfl, hrest⟩ := exists_of_first hu hw h
    rcases List.append_eq_append_iff.mp hrest with ⟨m, rfl, hm⟩ | ⟨m, rfl, hm⟩
    · -- The mark starts with no blank, so nothing of the blanks is left.
      rcases m with _ | ⟨d, m⟩
      · exact ⟨v, t, by simp, hv⟩
      · obtain rfl : '"' = d := (List.cons.inj hm).1
        exact absurd (hafter '"' (by simp)) (by decide)
    · rcases m with _ | ⟨d, m⟩
      · exact ⟨v, t, by simp, hv⟩
      · obtain rfl : '"' = d := (List.cons.inj hm).1
        obtain ⟨v', t', hvalue, hv'⟩ := exists_isValue_quote (m ++ (v ++ t))
        exact ⟨v', t', by simp [← hvalue], hv'⟩

/-! ## Texts that look the same -/

/-- From a place on, the two lines are the same but for the values of secret keys in them. What
stands before the place may differ, as it decides only whether a word starts there. -/
inductive SameInline : Option Char → Option Char → Str → Str → Prop
  | nil {b b' : Option Char} : SameInline b b' [] []
  | char {b b' : Option Char} {c : Char} {s s' : Str} :
    ¬ Found b (c :: s) → ¬ Found b' (c :: s') →
    SameInline (some c) (some c) s s' → SameInline b b' (c :: s) (c :: s')
  | value {b b' : Option Char} {kept v v' s s' : Str} :
    Finds b kept v s → Finds b' kept v' s' → SameInline v.getLast? v'.getLast? s s' →
    SameInline b b' (kept ++ (v ++ s)) (kept ++ (v' ++ s'))

theorem SameInline.replaceInline_eq {b b' : Option Char} {s s' : Str} (h : SameInline b b' s s') :
    replaceInline b 0 s = replaceInline b' 0 s' := by
  induction h with
  | nil => rfl
  | char hnone hnone' _ ih => rw [replaceInline_cons hnone, replaceInline_cons hnone', ih]
  | value hfinds hfinds' _ ih =>
    rw [replaceInline_of_finds hfinds, replaceInline_of_finds hfinds', ih]

/-- What stands before the two places makes no difference to a match there. -/
def Agree (b b' : Option Char) (s : Str) : Prop :=
  (b.map isWord).getD false = (b'.map isWord).getD false ∨ ∀ c ∈ s.head?, isBare c = false

theorem Agree.symm {b b' : Option Char} {s s' : Str} (h : Agree b b' s) (hs : s.head? = s'.head?) :
    Agree b' b s' :=
  h.imp Eq.symm fun hc => hs ▸ hc

theorem Agree.exists_finds {b b' : Option Char} {s kept v' t' : Str}
    (h : Agree b b' s) (hrep : replaceInline b 0 s = replaceInline b' 0 (kept ++ (v' ++ t')))
    (hfinds : Finds b' kept v' t') : ∃ v t, s = kept ++ (v ++ t) ∧ Finds b kept v t := by
  have hhead : s.head? = (kept ++ (v' ++ t')).head? := by
    rw [← head?_replaceInline b, hrep, head?_replaceInline]
  rw [replaceInline_of_finds hfinds] at hrep
  obtain ⟨hbound, hkept, -⟩ := hfinds
  obtain ⟨v, t, rfl, hv⟩ := exists_of_replaceInline hkept hrep
  refine ⟨v, t, rfl, ?_, hkept, hv⟩
  rcases h with h | h
  · rw [AtBoundary, h, hhead]
    exact hbound
  · obtain ⟨c, kept', rfl, hc⟩ := hkept.exists_cons
    have hno := h c rfl
    rw [hc] at hno
    cases hno

/-- The value of a match ends before a place where the two sides agree. -/
theorem agree_of_ends {v v' t t' : Str} (ht : t.head? = t'.head?) (hv : v ≠ []) (hv' : v' ≠ [])
    (h : (∀ c ∈ v.getLast?, isWord c = false) ∨ ∀ c ∈ t.head?, isBare c = false)
    (h' : (∀ c ∈ v'.getLast?, isWord c = false) ∨ ∀ c ∈ t'.head?, isBare c = false) :
    Agree v.getLast? v'.getLast? t := by
  rcases h with h | h
  · rcases h' with h' | h'
    · left
      rw [List.getLast?_eq_some_getLast hv, List.getLast?_eq_some_getLast hv', Option.map_some,
        Option.map_some, h _ (List.getLast?_eq_some_getLast hv),
        h' _ (List.getLast?_eq_some_getLast hv')]
    · exact Or.inr (ht ▸ h')
  · exact Or.inr h

theorem sameInline_of_eq {b b' : Option Char} {s s' : Str} (hb : Agree b b' s)
    (h : replaceInline b 0 s = replaceInline b' 0 s') : SameInline b b' s s' := by
  -- On the length of the line, as a match passes over the value.
  induction hlen : s.length using Nat.strong_induction_on generalizing b b' s s' with
  | _ n ih =>
    have hhead : s.head? = s'.head? := by rw [← head?_replaceInline b, h, head?_replaceInline]
    by_cases hfound : Found b s
    · obtain ⟨kept, v, t, rfl, hfinds⟩ := hfound
      obtain ⟨v', t', rfl, hfinds'⟩ := (hb.symm hhead).exists_finds h.symm hfinds
      rw [replaceInline_of_finds hfinds, replaceInline_of_finds hfinds'] at h
      have htail := List.append_cancel_left (List.append_cancel_left h)
      have ht : t.head? = t'.head? := by
        rw [← head?_replaceInline v.getLast?, htail, head?_replaceInline]
      obtain ⟨hv, hend⟩ := hfinds.2.2.ends
      obtain ⟨hv', hend'⟩ := hfinds'.2.2.ends
      have hpos := List.length_pos_iff.mpr hv
      rw [List.length_append, List.length_append] at hlen
      exact .value hfinds hfinds'
        (ih t.length (by omega) (agree_of_ends ht hv hv' hend hend') htail rfl)
    · have hfound' : ¬ Found b' s' := by
        rintro ⟨kept, v', t', rfl, hfinds'⟩
        obtain ⟨v, t, hs, hfinds⟩ := hb.exists_finds h hfinds'
        exact hfound ⟨kept, v, t, hs, hfinds⟩
      rcases s with _ | ⟨c, s⟩ <;> rcases s' with _ | ⟨c', s'⟩
      · exact .nil
      · cases hhead
      · cases hhead
      · obtain rfl := Option.some.inj hhead
        rw [replaceInline_cons hfound, replaceInline_cons hfound'] at h
        rw [List.length_cons] at hlen
        exact .char hfound hfound'
          (ih s.length (by omega) (Or.inl rfl) (List.cons.inj h).2 rfl)

/-- What ends the value of a secret key on the lines after its own, if it goes on. -/
def Leaves (value : Str) (c : Option Closer) : Prop :=
  ∀ closer, c = some closer ↔ Opens closer (trimSpace value)

theorem leaves_iff {value : Str} {c : Option Closer} :
    Leaves value c ↔ closerOf (trimSpace value) = c := by
  constructor
  · intro h
    refine Option.ext fun closer => ?_
    rw [closerOf_iff, h]
  · rintro rfl closer
    exact closerOf_iff

/-- The two lists of lines are the same but for the values of secret keys. Each side may be in a
value that goes on until its closer. -/
inductive SameShown : Option Closer → Option Closer → List Str → List Str → Prop
  | nil {c c' : Option Closer} : SameShown c c' [] []
  | inLeft {closer : Closer} {c' : Option Closer} {line : Str} {lines lines' : List Str} :
    SameShown (if closer.text <:+: line then none else some closer) c' lines lines' →
    SameShown (some closer) c' (line :: lines) lines'
  | inRight {c : Option Closer} {closer : Closer} {line : Str} {lines lines' : List Str} :
    SameShown c (if closer.text <:+: line then none else some closer) lines lines' →
    SameShown c (some closer) lines (line :: lines')
  | assignment {key value value' line line' : Str} {c c' : Option Closer}
      {lines lines' : List Str} :
    Assigns line key value → Assigns line' key value' → Leaves value c → Leaves value' c' →
    SameShown c c' lines lines' → SameShown none none (line :: lines) (line' :: lines')
  | other {line line' : Str} {lines lines' : List Str} :
    (¬ ∃ key value, Assigns line key value) → (¬ ∃ key value, Assigns line' key value) →
    SameInline none none line line' → SameShown none none lines lines' →
    SameShown none none (line :: lines) (line' :: lines')

theorem redactLines_some (closer : Closer) (line : Str) (lines : List Str) :
    redactLines (some closer) (line :: lines) =
      redactLines (if closer.text <:+: line then none else some closer) lines :=
  rfl

theorem redactLines_of_assigns {line key value : Str} {c : Option Closer}
    (h : Assigns line key value) (hc : Leaves value c) (lines : List Str) :
    redactLines none (line :: lines) = (key ++ redacted) :: redactLines c lines := by
  obtain rfl := leaves_iff.mp hc
  simp only [redactLines, redactLine, secretKeyLine_iff.mpr h]
  rfl

theorem redactLines_of_not_assigns {line : Str} (h : ¬ ∃ key value, Assigns line key value)
    (lines : List Str) :
    redactLines none (line :: lines) = replaceInline none 0 line :: redactLines none lines := by
  have hnone : secretKeyLine line = none := by
    rcases hkey : secretKeyLine line with _ | ⟨key, value⟩
    · rfl
    · exact absurd ⟨key, value, secretKeyLine_iff.mp hkey⟩ h
  simp only [redactLines, redactLine, hnone]
  rfl

/-- What a line adds to the text that is shown. -/
theorem redactLines_cases (line : Str) (lines : List Str) :
    (∃ key value c, Assigns line key value ∧ Leaves value c ∧
      redactLines none (line :: lines) = (key ++ redacted) :: redactLines c lines) ∨
    (¬ ∃ key value, Assigns line key value) ∧
      redactLines none (line :: lines) = replaceInline none 0 line :: redactLines none lines := by
  by_cases h : ∃ key value, Assigns line key value
  · obtain ⟨key, value, hkey⟩ := h
    have hc : Leaves value (closerOf (trimSpace value)) := leaves_iff.mpr rfl
    exact Or.inl ⟨key, value, _, hkey, hc, redactLines_of_assigns hkey hc lines⟩
  · exact Or.inr ⟨h, redactLines_of_not_assigns h lines⟩

theorem redactLines_cons_ne_nil (line : Str) (lines : List Str) :
    redactLines none (line :: lines) ≠ [] := by
  rcases redactLines_cases line lines with ⟨_, _, _, -, -, h⟩ | ⟨-, h⟩ <;> rw [h]
  · exact List.cons_ne_nil _ _
  · exact List.cons_ne_nil _ _

theorem SameShown.redactLines_eq {c c' : Option Closer} {lines lines' : List Str}
    (h : SameShown c c' lines lines') : redactLines c lines = redactLines c' lines' := by
  induction h with
  | nil => rfl
  | inLeft _ ih => rw [redactLines_some, ih]
  | inRight _ ih => rw [redactLines_some, ih]
  | assignment hkey hkey' hc hc' _ ih =>
    rw [redactLines_of_assigns hkey hc, redactLines_of_assigns hkey' hc', ih]
  | other hnone hnone' hline _ ih =>
    rw [redactLines_of_not_assigns hnone, redactLines_of_not_assigns hnone',
      hline.replaceInline_eq, ih]

/-- A line that assigns no secret key does not look like one that does. -/
theorem replaceInline_ne_of_assigns {line line' key value : Str} (h : Assigns line key value)
    (h' : ¬ ∃ key value, Assigns line' key value) :
    replaceInline none 0 line' ≠ key ++ redacted := by
  intro hrep
  obtain ⟨-, -, w, after, rfl, hw, -⟩ := h
  -- The text before the first equals sign is copied.
  have hline : ∃ rest, line' = w ++ '=' :: rest := by
    obtain ⟨u, r, out, rfl, hcopy, ⟨rfl, rfl⟩ | ⟨hu, -⟩⟩ := exists_copied none line'
    · rw [List.append_nil] at hcopy hrep ⊢
      exact ⟨after ++ redacted, by simpa using hcopy.symm.trans hrep⟩
    · rw [hcopy, List.append_assoc, List.cons_append] at hrep
      have hno : '=' ∉ w := hw.not_mem (by decide) (by decide) (by decide)
      obtain ⟨u', rfl, -⟩ := exists_of_first hu hno hrep
      exact ⟨u' ++ r, by simp⟩
  obtain ⟨rest, rfl⟩ := hline
  exact h' (exists_assigns hw rest)

theorem sameShown_of_eq {c c' : Option Closer} {lines lines' : List Str}
    (h : redactLines c lines = redactLines c' lines') : SameShown c c' lines lines' := by
  -- On the lines of both sides, as a line inside of a value is passed on one side only.
  induction hlen : lines.length + lines'.length using Nat.strong_induction_on
    generalizing c c' lines lines' with
  | _ n ih =>
    rcases lines with _ | ⟨line, lines⟩
    · rcases lines' with _ | ⟨line', lines'⟩
      · exact .nil
      · rcases c' with _ | closer
        · exact absurd h.symm (redactLines_cons_ne_nil line' lines')
        · exact .inRight (ih _ (by simp only [List.length_cons] at hlen; omega) h rfl)
    · rw [List.length_cons] at hlen
      rcases c with _ | closer
      · rcases lines' with _ | ⟨line', lines'⟩
        · exact absurd h (redactLines_cons_ne_nil line lines)
        · rw [List.length_cons] at hlen
          rcases c' with _ | closer
          · rcases redactLines_cases line lines with ⟨key, value, c, hkey, hc, heq⟩ | ⟨hno, heq⟩ <;>
              rcases redactLines_cases line' lines' with
                ⟨key', value', c', hkey', hc', heq'⟩ | ⟨hno', heq'⟩ <;> rw [heq, heq'] at h <;>
              obtain ⟨hline, hlines⟩ := List.cons.inj h
            · obtain rfl := List.append_cancel_right hline
              exact .assignment hkey hkey' hc hc' (ih _ (by omega) hlines rfl)
            · exact absurd hline.symm (replaceInline_ne_of_assigns hkey hno')
            · exact absurd hline (replaceInline_ne_of_assigns hkey' hno)
            · exact .other hno hno' (sameInline_of_eq (Or.inl rfl) hline)
                (ih _ (by omega) hlines rfl)
          · exact .inRight (ih _ (by simp only [List.length_cons]; omega) h rfl)
      · exact .inLeft (ih _ (by omega) h rfl)

theorem not_mem_of_mem_redactLines {c : Option Closer} {lines : List Str}
    (h : ∀ line ∈ lines, '\n' ∉ line) : ∀ line ∈ redactLines c lines, '\n' ∉ line := by
  induction lines generalizing c with
  | nil => exact fun line hline => absurd hline List.not_mem_nil
  | cons line lines ih =>
    obtain ⟨hline, hlines⟩ := List.forall_mem_cons.mp h
    rcases c with _ | closer
    · rcases redactLines_cases line lines with ⟨key, value, _, hkey, -, heq⟩ | ⟨-, heq⟩ <;>
        rw [heq, List.forall_mem_cons] <;> refine ⟨fun hmem => ?_, ih hlines⟩
      · rcases List.mem_append.mp hmem with hmem | hmem
        · exact hline (hkey.1 ▸ List.mem_append_left value hmem)
        · exact absurd hmem (by decide)
      · exact (mem_replaceInline hmem).elim hline (by decide)
    · exact ih hlines

theorem split_redactConfig (text : Str) :
    split (redactConfig text) '\n' = redactLines none (split text '\n') := by
  refine List.splitOn_intercalate '\n' (not_mem_of_mem_redactLines fun line hline =>
    not_mem_of_mem_split hline) ?_
  obtain ⟨line, lines, hsplit⟩ := List.exists_cons_of_ne_nil (split_ne_nil text '\n')
  rw [hsplit]
  exact redactLines_cons_ne_nil line lines

/-- Two texts are shown the same exactly if, outside of redacted values that go on over several
lines, their lines are the same but for what follows a secret key at the start of a line and the
values that follow one elsewhere. -/
theorem redactConfig_iff (text text' : Str) :
    redactConfig text = redactConfig text' ↔
      SameShown none none (split text '\n') (split text' '\n') := by
  constructor
  · intro h
    have hlines := congrArg (split · '\n') h
    rw [split_redactConfig, split_redactConfig] at hlines
    exact sameShown_of_eq hlines
  · intro h
    rw [redactConfig, h.redactLines_eq, redactConfig]

def bareKey (s : Str)
    (h : s ≠ [] ∧ (s.all fun c => c.isAlphanum || c = '_' || c = '-') = true) : KeyPart :=
  .bare s ⟨h.1, List.all_eq_true.mp h.2⟩

def literalChars (s : Str) (h : (s.all fun c => IsText c ∧ c ≠ '\'') = true) : List LiteralChar :=
  s.pmap LiteralChar.mk fun c hc => of_decide_eq_true (List.all_eq_true.mp h c hc)

def basicChars (s : Str) (h : (s.all fun c => IsText c ∧ c ≠ '"' ∧ c ≠ '\\') = true) :
    List BasicChar :=
  s.pmap BasicChar.plain fun c hc => of_decide_eq_true (List.all_eq_true.mp h c hc)

/-- Rules under which only booleans are scalars and no line or key is defined twice. -/
def plainRules : Rules where
  scalar text := text = "true".toList ∨ text = "false".toList
  table ds := ds.Nodup
  document ds := ds.Nodup

/-- A document of one line that assigns a string to a key. -/
def assignment (key : KeyPart) (value : List BasicChar) : Document :=
  ⟨.pair [] ⟨⟨key, []⟩, [.space], [.space]⟩ (.string (.basic value)) [] none, []⟩

theorem ok_assignment (key : KeyPart) (value : List BasicChar) :
    (assignment key value).Ok plainRules :=
  ⟨trivial, fun _ hp => (List.not_mem_nil hp).elim, List.pairwise_singleton _ _⟩

/-- The value of a bare key is hidden. -/
theorem redactConfig_bare_key :
    SameBut plainRules isSecret "secret = \"a\"".toList "secret = \"b\"".toList ∧
      redactConfig "secret = \"a\"".toList = redactConfig "secret = \"b\"".toList := by
  constructor
  · exact ⟨assignment (bareKey "secret".toList (by decide)) (basicChars ['a'] (by decide)),
      assignment (bareKey "secret".toList (by decide)) (basicChars ['b'] (by decide)),
      ok_assignment _ _, ok_assignment _ _, rfl, rfl, rfl⟩
  · refine (redactConfig_iff _ _).mpr ?_
    have hkey : ∀ value ∈ ["\"a\"".toList, "\"b\"".toList],
        Assigns ("secret = ".toList ++ value) "secret = ".toList value ∧ Leaves value none := by
      simp only [← secretKeyLine_iff, leaves_iff]
      decide
    obtain ⟨ha, hca⟩ := hkey "\"a\"".toList (by simp)
    obtain ⟨hb, hcb⟩ := hkey "\"b\"".toList (by simp)
    exact .assignment ha hb hca hcb .nil

/-- A key between single quotes is not found. -/
theorem redactConfig_single_quoted :
    SameBut plainRules isSecret "'secret' = \"a\"".toList "'secret' = \"b\"".toList ∧
      redactConfig "'secret' = \"a\"".toList ≠ redactConfig "'secret' = \"b\"".toList := by
  refine ⟨?_, by decide⟩
  exact ⟨assignment (.literal (literalChars "secret".toList (by decide)))
      (basicChars ['a'] (by decide)),
    assignment (.literal (literalChars "secret".toList (by decide)))
      (basicChars ['b'] (by decide)), ok_assignment _ _, ok_assignment _ _, rfl, rfl, rfl⟩

end SplitDNS.Diag
