import Mathlib.Algebra.Group.Nat.Defs
import Mathlib.Data.List.DropRight
import SplitDNS.Go.Basic

/-! # Strings

Go's `strings` and `strconv` functions over lists of characters. Suffixes are
`List.IsSuffix`, so that matching a suffix and cutting it off are statements
about concatenation. Case mapping is the ASCII one that host names need.
-/

namespace Go.Strings

def hasSuffix (s suffix : Str) : Bool := decide (suffix <:+ s)

def hasPrefix (s pre : Str) : Bool := decide (pre <+: s)

/-- `strings.TrimSuffix`: the string itself when it does not end in the suffix. -/
def trimSuffix (s suffix : Str) : Str :=
  if suffix <:+ s then s.take (s.length - suffix.length) else s

def split (s : Str) (sep : Char) : List Str := s.splitOn sep

def join (parts : List Str) (sep : Char) : Str := [sep].intercalate parts

def toLower (s : Str) : Str := s.map Char.toLower

def toUpper (s : Str) : Str := s.map Char.toUpper

def isSpace (c : Char) : Bool :=
  c.toNat ∈ [9, 10, 11, 12, 13, 32, 0x85, 0xa0, 0x1680, 0x2028, 0x2029, 0x202f, 0x205f, 0x3000] ||
    (0x2000 ≤ c.toNat && c.toNat ≤ 0x200a)

def trimSpace (s : Str) : Str := (s.dropWhile isSpace).rdropWhile isSpace

def trim (s : Str) (cut : Char) : Str := (s.dropWhile (· = cut)).rdropWhile (· = cut)

/-- `strings.Fields`: the maximal runs of characters that are not spaces. -/
def fields (s : Str) : List Str := (s.splitOnP isSpace).filter (· ≠ [])

/-- `strings.ReplaceAll` of one character by a string. -/
def replaceAll (s : Str) (c : Char) (by' : Str) : Str :=
  s.flatMap fun d => if d = c then by' else [d]

def formatUint (n : ℕ) : Str := Nat.toDigits 10 n

def digitVal (c : Char) : Option ℕ := if c.isDigit then some (c.toNat - '0'.toNat) else none

/-- `strconv.ParseUint` in base ten for a value of the given number of bits. -/
def parseUint (s : Str) (bits : ℕ) : Option ℕ :=
  if s = [] then none
  else (s.foldlM (fun acc c => (digitVal c).map (acc * 10 + ·)) 0).filter (· < 2 ^ bits)

theorem toLower_char_cases (c : Char) :
    c.toLower = c ∨ 65 ≤ c.toNat ∧ c.toNat ≤ 90 ∧ c.toLower.toNat = c.toNat + 32 := by
  by_cases h : c.val ≥ 'A'.val ∧ c.val ≤ 'Z'.val
  · have hlo : 65 ≤ c.toNat := UInt32.le_iff_toNat_le.mp h.1
    have hhi : c.toNat ≤ 90 := UInt32.le_iff_toNat_le.mp h.2
    have hval : c.toLower.val = c.val + 32 := congrArg Char.val (dif_pos h)
    refine Or.inr ⟨hlo, hhi, ?_⟩
    change c.toLower.val.toNat = c.toNat + 32
    rw [hval, UInt32.toNat_add]
    change (c.toNat + 32) % 2 ^ 32 = c.toNat + 32
    omega
  · exact Or.inl (dif_neg h)

theorem toLower_char_eq_iff {c d : Char} (hd : d.toLower = d) (hl : d.toNat < 97) :
    c.toLower = d ↔ c = d := by
  constructor
  · intro h
    rcases toLower_char_cases c with hc | ⟨hlo, -, hc⟩
    · rw [← h, hc]
    · rw [h] at hc
      omega
  · rintro rfl
    exact hd

theorem toLower_toLower (s : Str) : toLower (toLower s) = toLower s := by
  rw [toLower, toLower, List.map_map]
  refine List.map_congr_left fun c _ => ?_
  rcases toLower_char_cases c with hc | ⟨hlo, -, hc⟩
  · rw [Function.comp_apply, hc, hc]
  · rcases toLower_char_cases c.toLower with h | ⟨-, hhi, -⟩
    · exact h
    · omega

theorem trimSuffix_append (s suffix : Str) : trimSuffix (s ++ suffix) suffix = s := by
  simp [trimSuffix]

theorem trimSuffix_of_not_suffix {s suffix : Str} (h : ¬ suffix <:+ s) :
    trimSuffix s suffix = s := if_neg h

theorem trimSuffix_append_of_suffix {s suffix : Str} (h : suffix <:+ s) :
    trimSuffix s suffix ++ suffix = s := by
  obtain ⟨t, rfl⟩ := h
  rw [trimSuffix_append]

theorem toLower_trimSuffix {s suffix : Str} (h : toLower s = s) :
    toLower (trimSuffix s suffix) = trimSuffix s suffix := by
  by_cases hs : suffix <:+ s
  · have happ := trimSuffix_append_of_suffix hs
    rw [← happ, toLower, List.map_append] at h
    exact List.append_inj_left h (List.length_map _)
  · rw [trimSuffix_of_not_suffix hs]
    exact h

theorem trimSuffix_ne_iff {s suffix : Str} (hn : suffix ≠ []) :
    trimSuffix s suffix ≠ s ↔ suffix <:+ s := by
  constructor
  · intro h
    by_contra hs
    exact h (trimSuffix_of_not_suffix hs)
  · intro h he
    have := trimSuffix_append_of_suffix h
    rw [he] at this
    exact hn (List.append_right_eq_self.mp this)

theorem trimSpace_of_ends {s : Str} (hfirst : ∀ c ∈ s.head?, isSpace c = false)
    (hlast : ∀ c ∈ s.getLast?, isSpace c = false) : trimSpace s = s := by
  have hdrop : s.dropWhile isSpace = s := by
    cases s with
    | nil => rfl
    | cons c r => exact List.dropWhile_cons_of_neg (by simp [hfirst c rfl])
  rw [trimSpace, hdrop, List.rdropWhile_eq_self_iff]
  intro hne
  simp [hlast _ (List.getLast?_eq_some_getLast hne)]

theorem trimSpace_of_not_isSpace {s : Str} (h : ∀ c ∈ s, isSpace c = false) : trimSpace s = s :=
  trimSpace_of_ends (fun c hc => h c (List.mem_of_mem_head? hc))
    fun c hc => h c (List.mem_of_mem_getLast? hc)

theorem join_split (s : Str) (sep : Char) : join (split s sep) sep = s :=
  List.intercalate_splitOn sep

theorem join_cons_cons (s t : Str) (l : List Str) (sep : Char) :
    join (s :: t :: l) sep = s ++ sep :: join (t :: l) sep := by
  simp [join]

theorem join_cons_ne_nil {s : Str} (hs : s ≠ []) (l : List Str) (sep : Char) :
    join (s :: l) sep ≠ [] := by
  cases l <;> simp [join, hs]

theorem split_append (s t : Str) (sep : Char) :
    split (s ++ sep :: t) sep = split s sep ++ split t sep :=
  List.splitOn_append_cons_self s t

theorem split_of_not_mem {s : Str} {sep : Char} (h : sep ∉ s) : split s sep = [s] :=
  List.splitOn_eq_singleton h

theorem takeWhile_ne_append {s : Str} {c : Char} (h : c ∉ s) (t : Str) :
    (s ++ c :: t).takeWhile (· ≠ c) = s := by
  rw [List.takeWhile_append_of_pos]
  · simp
  · exact fun d hd => decide_eq_true fun heq : d = c => h (heq ▸ hd)

/-- The first place of a character cuts a string in one way. -/
theorem append_cons_inj {s s' t t' : Str} {c : Char} (h : c ∉ s) (h' : c ∉ s')
    (heq : s ++ c :: t = s' ++ c :: t') : s = s' ∧ t = t' := by
  obtain rfl : s = s' := by rw [← takeWhile_ne_append h t, heq, takeWhile_ne_append h']
  exact ⟨rfl, (List.cons.inj (List.append_cancel_left heq)).2⟩

theorem fields_append (s t : Str) : fields (s ++ ' ' :: t) = fields s ++ fields t := by
  unfold fields
  rw [List.splitOnP_append_cons s t (by decide), List.filter_append]

theorem not_of_mem_splitOnP {α : Type*} {p : α → Bool} {s f : List α} (h : f ∈ s.splitOnP p) {c : α}
    (hc : c ∈ f) : p c = false := by
  induction s generalizing f with
  | nil =>
    rw [List.splitOnP_nil, List.mem_singleton] at h
    rw [h] at hc
    cases hc
  | cons d s ih =>
    rw [List.splitOnP_cons_eq_if_modifyHead] at h
    split_ifs at h with hd
    · rcases List.mem_cons.mp h with rfl | h
      · cases hc
      · exact ih h hc
    · obtain ⟨r, rs, hr⟩ := List.exists_cons_of_ne_nil (List.splitOnP_ne_nil p s)
      rw [hr, List.modifyHead_cons] at h
      rcases List.mem_cons.mp h with rfl | h
      · rcases List.mem_cons.mp hc with rfl | hc
        · simpa using hd
        · exact ih (hr ▸ List.mem_cons_self) hc
      · exact ih (hr ▸ List.mem_cons_of_mem r h) hc

theorem mem_fields {s f : Str} (h : f ∈ fields s) : f ≠ [] ∧ ∀ c ∈ f, isSpace c = false := by
  obtain ⟨hmem, hne⟩ := List.mem_filter.mp h
  exact ⟨by simpa using hne, fun c hc => not_of_mem_splitOnP hmem hc⟩

theorem not_mem_of_mem_split {s f : Str} {sep : Char} (h : f ∈ split s sep) : sep ∉ f := by
  intro hsep
  have := not_of_mem_splitOnP (p := (· == sep)) h hsep
  simp at this

theorem fields_join {l : List Str} (h : ∀ f ∈ l, f ≠ [] ∧ ∀ c ∈ f, isSpace c = false) :
    fields (join l ' ') = l := by
  have hfield : ∀ f : Str, f ≠ [] ∧ (∀ c ∈ f, isSpace c = false) → fields f = [f] := by
    rintro f ⟨hne, hf⟩
    rw [fields, List.splitOnP_eq_singleton hf, List.filter_singleton]
    simp [hne]
  induction l with
  | nil => rfl
  | cons f l ih =>
    have hf := hfield f (h f List.mem_cons_self)
    rcases l with _ | ⟨g, l⟩
    · simpa [join] using hf
    · rw [join_cons_cons, fields_append, hf, ih fun f' hf' => h f' (List.mem_cons_of_mem f hf')]
      rfl

theorem formatUint_ne_nil (n : ℕ) : formatUint n ≠ [] := Nat.toDigits_ne_nil

theorem head?_formatUint {n : ℕ} (h : 0 < n) : (formatUint n).head? ≠ some '0' := by
  induction n using Nat.strongRecOn with
  | ind n ih =>
    rcases Nat.lt_or_ge n 10 with hlt | hge
    · rw [formatUint, Nat.toDigits_of_lt_base hlt, List.head?_cons]
      exact fun hzero => h.ne' (Nat.digitChar_eq_zero.mp (Option.some.inj hzero))
    · have hrest := ih (n / 10) (by omega) (by omega)
      rw [formatUint, Nat.toDigits_of_base_le (by decide) hge,
        List.head?_append_of_ne_nil _ Nat.toDigits_ne_nil]
      exact hrest

theorem isDigit_of_mem_formatUint {n : ℕ} {c : Char} (h : c ∈ formatUint n) : c.isDigit = true :=
  Nat.isDigit_of_mem_toDigits (by decide) (by decide) h

theorem isSpace_of_isDigit {c : Char} (h : c.isDigit = true) : isSpace c = false := by
  obtain ⟨hlo, hhi⟩ := Char.isDigit_iff_toNat.mp h
  have hlo : 48 ≤ c.toNat := hlo
  have hhi : c.toNat ≤ 57 := hhi
  simp only [isSpace, List.mem_cons, List.not_mem_nil, or_false, Bool.or_eq_false_iff,
    decide_eq_false_iff_not, Bool.and_eq_false_iff]
  omega

theorem foldlM_digits {s : Str} (h : ∀ c ∈ s, c.isDigit = true) (n : ℕ) :
    s.foldlM (fun acc c => (digitVal c).map (acc * 10 + ·)) n = some (Nat.ofDigitChars 10 s n) := by
  induction s generalizing n with
  | nil => rfl
  | cons c s ih =>
    rw [List.foldlM_cons, digitVal, if_pos (h c List.mem_cons_self)]
    change List.foldlM _ _ s = _
    rw [ih fun c hc => h c (List.mem_cons_of_mem _ hc), Nat.mul_comm n 10]
    rfl

theorem parseUint_formatUint {n bits : ℕ} (h : n < 2 ^ bits) :
    parseUint (formatUint n) bits = some n := by
  rw [parseUint, if_neg (formatUint_ne_nil n),
    foldlM_digits fun c hc => isDigit_of_mem_formatUint hc, formatUint,
    Nat.ofDigitChars_toDigits (by decide) (by decide)]
  exact Option.filter_eq_some_iff.mpr ⟨rfl, decide_eq_true h⟩

theorem split_ne_nil (s : Str) (sep : Char) : split s sep ≠ [] := List.splitOn_ne_nil sep s

end Go.Strings
