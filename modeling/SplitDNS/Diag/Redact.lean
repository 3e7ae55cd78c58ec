import Mathlib.Data.List.Infix
import SplitDNS.Go.Strings

/-! # The configuration panel

The console shows the configuration with the values of secret keys blanked out,
line by line and by regular expressions. Each expression is a function of the text,
with an equivalence that says what it matches.
-/

namespace SplitDNS.Diag

open Go Go.Strings

/-- The names in `secretKeyAlt`. -/
def secretKeys : List Str :=
  ["secret".toList, "tsig_secret".toList, "control_password".toList, "password".toList,
    "passwd".toList, "token".toList, "api_key".toList, "apikey".toList]

def isSecret (name : Str) : Bool := secretKeys.contains name

def redacted : Str := "\"***REDACTED***\"".toList

/-- The class `\s`. -/
def isBlank (c : Char) : Bool :=
  c = ' ' || c = '\t' || c = '\n' || c = '\r' || c = Char.ofNat 0x0c

/-- The class `\w`. -/
def isWord (c : Char) : Bool := c.isAlphanum || c = '_'

/-- A character of the text matches one of a name in either case. Two letters have a third form. -/
def foldEq (p c : Char) : Bool :=
  p = c.toLower || (p = 's' && c = Char.ofNat 0x17f) || (p = 'k' && c = Char.ofNat 0x212a)

/-- A name at the start of a text, as it is written, and what follows it. No name starts with
another one. -/
def matchKey (s : Str) : Option (Str × Str) :=
  secretKeys.findSome? fun k =>
    if k.length ≤ s.length ∧ (k.zip s).all (fun p => foldEq p.1 p.2) then
      some (s.take k.length, s.drop k.length)
    else none

/-- The match of `\s*=\s*`, and what follows it. -/
def matchEquals (s : Str) : Option (Str × Str) :=
  match s.dropWhile isBlank with
  | '=' :: t => some (s.takeWhile isBlank ++ '=' :: t.takeWhile isBlank, t.dropWhile isBlank)
  | _ => none

/-- The match of `"?`, and what follows it. -/
def matchQuote : Str → Str × Str
  | '"' :: t => (['"'], t)
  | s => ([], s)

def secretKeyLine (line : Str) : Option (Str × Str) :=
  let quote := matchQuote (line.dropWhile isBlank)
  match matchKey quote.2 with
  | none => none
  | some (key, rest) =>
    let quote' := matchQuote rest
    match matchEquals quote'.2 with
    | none => none
    | some (equals, value) =>
      some (line.takeWhile isBlank ++ quote.1 ++ key ++ quote'.1 ++ equals, value)

/-- The class `[^\s,}\]]`. -/
def isBare (c : Char) : Bool := !isBlank c && c ≠ ',' && c ≠ '}' && c ≠ ']'

/-- The length of the match of `"[^"]*"|'[^']*'|[^\s,}\]]+`. -/
def matchValue (s : Str) : Option ℕ :=
  let bare := (s.takeWhile isBare).length
  let bare := if bare = 0 then none else some bare
  match s with
  | '"' :: t => if '"' ∈ t then some ((t.takeWhile (· ≠ '"')).length + 2) else bare
  | '\'' :: t => if '\'' ∈ t then some ((t.takeWhile (· ≠ '\'')).length + 2) else bare
  | _ => bare

/-- The match of `secretInline` at a place of a line: what is kept of it, and its length. -/
def matchInline (before : Option Char) (s : Str) : Option (Str × ℕ) :=
  if (before.map isWord).getD false = (s.head?.map isWord).getD false then none
  else
    match matchKey s with
    | none => none
    | some (key, rest) =>
      match matchEquals rest with
      | none => none
      | some (equals, rest) =>
        (matchValue rest).map fun n => (key ++ equals, (key ++ equals).length + n)

/-- `secretInline.ReplaceAllString`, from a place of a line on, after the end of the last match. -/
def replaceInline (before : Option Char) (skip : ℕ) : Str → Str
  | [] => []
  | c :: s =>
    match skip with
    | skip + 1 => replaceInline (some c) skip s
    | 0 =>
      match matchInline before (c :: s) with
      | some (kept, n) => kept ++ redacted ++ replaceInline (some c) (n - 1) s
      | none => c :: replaceInline (some c) 0 s

/-- What ends a value that goes on over the next lines. -/
inductive Closer
  | basic | literal | array
  deriving DecidableEq

def Closer.text : Closer → Str
  | .basic => "\"\"\"".toList
  | .literal => "'''".toList
  | .array => "]".toList

/-- The value of a secret key goes on after its line. -/
def closerOf (value : Str) : Option Closer :=
  if hasPrefix value "\"\"\"".toList ∧ ¬ "\"\"\"".toList <:+: value.drop 3 then some .basic
  else if hasPrefix value "'''".toList ∧ ¬ "'''".toList <:+: value.drop 3 then some .literal
  else if hasPrefix value "[".toList ∧ ¬ "]".toList <:+: value then some .array
  else none

/-- One line: what is shown of it, and whether the next lines belong to a redacted value. -/
def redactLine (closer : Option Closer) (line : Str) : Option Str × Option Closer :=
  match closer with
  | some closer => (none, if closer.text <:+: line then none else some closer)
  | none =>
    match secretKeyLine line with
    | some (key, value) => (some (key ++ redacted), closerOf (trimSpace value))
    | none => (some (replaceInline none 0 line), none)

def redactLines (closer : Option Closer) : List Str → List Str
  | [] => []
  | line :: lines =>
    (redactLine closer line).1.toList ++ redactLines (redactLine closer line).2 lines

def redactConfig (b : Str) : Str := join (redactLines none (split b '\n')) '\n'

/-! ## The expressions -/

/-- The letter of a name that a character of the text matches. -/
def fold (c : Char) : Char :=
  if c = Char.ofNat 0x17f then 's' else if c = Char.ofNat 0x212a then 'k' else c.toLower

theorem foldEq_eq {p : Char} (hs : p ≠ Char.ofNat 0x17f) (hk : p ≠ Char.ofNat 0x212a) (c : Char) :
    foldEq p c = decide (p = fold c) := by
  unfold foldEq fold
  split_ifs with hcs hck
  · subst hcs
    have hlower : (Char.ofNat 0x17f).toLower = Char.ofNat 0x17f := by decide
    simp [hlower, hs]
  · subst hck
    have hlower : (Char.ofNat 0x212a).toLower = Char.ofNat 0x212a := by decide
    simp [hlower, hk]
  · simp [hcs, hck]

theorem all_foldEq_iff {k : Str} (hk : ∀ p ∈ k, p ≠ Char.ofNat 0x17f ∧ p ≠ Char.ofNat 0x212a)
    (s : Str) : (k.length ≤ s.length ∧ (k.zip s).all (fun p => foldEq p.1 p.2)) ↔
      k <+: s.map fold := by
  induction k generalizing s with
  | nil => simp
  | cons p k ih =>
    cases s with
    | nil => simp
    | cons c s =>
      obtain ⟨hp, hk⟩ := List.forall_mem_cons.mp hk
      rw [List.map_cons, List.cons_prefix_cons, ← ih hk s, List.zip_cons_cons, List.all_cons,
        foldEq_eq hp.1 hp.2, Bool.and_eq_true, decide_eq_true_eq, List.length_cons,
        List.length_cons, Nat.add_le_add_iff_right]
      tauto

/-- A name is found where the text has its letters in some case. -/
theorem matchKey_iff {s key rest : Str} :
    matchKey s = some (key, rest) ↔ key.map fold ∈ secretKeys ∧ s = key ++ rest := by
  have hplain : ∀ k ∈ secretKeys,
      (k.all fun p => p ≠ Char.ofNat 0x17f ∧ p ≠ Char.ofNat 0x212a) = true := by decide
  have hfold : ∀ k ∈ secretKeys, (k.length ≤ s.length ∧
      (k.zip s).all (fun p => foldEq p.1 p.2)) ↔ k <+: s.map fold := fun k hk =>
    all_foldEq_iff (fun p hp => of_decide_eq_true (List.all_eq_true.mp (hplain k hk) p hp)) s
  have hfound : ∀ r, matchKey s = some r →
      ∃ k ∈ secretKeys, k <+: s.map fold ∧ r = (s.take k.length, s.drop k.length) := by
    intro r h
    obtain ⟨k, hk, hmatch⟩ := List.exists_of_findSome?_eq_some h
    split_ifs at hmatch with hp
    exact ⟨k, hk, (hfold k hk).mp hp, (Option.some.inj hmatch).symm⟩
  constructor
  · intro h
    obtain ⟨k, hk, hpre, heq⟩ := hfound _ h
    obtain ⟨rfl, rfl⟩ := Prod.mk.inj heq
    rw [List.map_take, ← List.prefix_iff_eq_take.mp hpre]
    exact ⟨hk, (List.take_append_drop _ _).symm⟩
  · rintro ⟨hkey, rfl⟩
    have hpre : key.map fold <+: (key ++ rest).map fold := by
      rw [List.map_append]
      exact List.prefix_append _ _
    rcases hmatch : matchKey (key ++ rest) with _ | r
    · have hno := List.findSome?_eq_none_iff.mp hmatch _ hkey
      rw [if_pos ((hfold _ hkey).mpr hpre)] at hno
      cases hno
    · -- No name is the beginning of another one.
      have hfree : ∀ k ∈ secretKeys, ∀ k' ∈ secretKeys, k <+: k' → k = k' := by decide
      obtain ⟨k, hk, hk', rfl⟩ := hfound r hmatch
      have hlen : k.length = key.length := by
        rcases List.prefix_or_prefix_of_prefix hk' hpre with h | h
        · rw [hfree _ hk _ hkey h, List.length_map]
        · rw [← hfree _ hkey _ hk h, List.length_map]
      rw [hlen, List.take_left, List.drop_left]

theorem not_mem_of_fold {key : Str} (hkey : key.map fold ∈ secretKeys) {c : Char}
    (hc : (secretKeys.all fun k => k.all fun p => p ≠ fold c) = true) : c ∉ key := by
  intro hmem
  have hall := List.all_eq_true.mp hc _ hkey
  have hne := List.all_eq_true.mp hall _ (List.mem_map_of_mem hmem)
  exact absurd rfl (of_decide_eq_true hne)

theorem takeWhile_append_of_head {ws s : Str} (hws : ∀ c ∈ ws, isBlank c = true)
    (hs : ∀ c ∈ s.head?, isBlank c = false) :
    (ws ++ s).takeWhile isBlank = ws ∧ (ws ++ s).dropWhile isBlank = s := by
  rw [List.takeWhile_append_of_pos hws, List.dropWhile_append_of_pos hws]
  rcases s with _ | ⟨c, s⟩
  · exact ⟨List.append_nil ws, rfl⟩
  · have hc := hs c rfl
    rw [List.takeWhile_cons, List.dropWhile_cons, hc]
    exact ⟨List.append_nil ws, rfl⟩

theorem isBlank_head?_dropWhile (s : Str) :
    ∀ c ∈ (s.dropWhile isBlank).head?, isBlank c = false := by
  intro c hc
  have hnot := List.head?_dropWhile_not isBlank s
  rw [Option.mem_def.mp hc] at hnot
  simpa using hnot

theorem matchEquals_iff {s equals rest : Str} :
    matchEquals s = some (equals, rest) ↔ s = equals ++ rest ∧
      (∀ c ∈ rest.head?, isBlank c = false) ∧ ∃ before after, equals = before ++ '=' :: after ∧
        (∀ c ∈ before, isBlank c = true) ∧ ∀ c ∈ after, isBlank c = true := by
  constructor
  · intro h
    unfold matchEquals at h
    split at h
    · rename_i t ht
      cases h
      refine ⟨?_, isBlank_head?_dropWhile t, _, _, rfl, fun c => List.mem_takeWhile_imp,
        fun c => List.mem_takeWhile_imp⟩
      rw [List.append_assoc, List.cons_append, List.takeWhile_append_dropWhile, ← ht,
        List.takeWhile_append_dropWhile]
    · cases h
  · rintro ⟨rfl, hrest, before, after, rfl, hbefore, hafter⟩
    obtain ⟨htake, hdrop⟩ := takeWhile_append_of_head hbefore
      (show ∀ d ∈ ('=' :: (after ++ rest)).head?, isBlank d = false by
        rintro _ ⟨⟩
        decide)
    obtain ⟨htake', hdrop'⟩ := takeWhile_append_of_head hafter hrest
    rw [matchEquals, List.append_assoc, List.cons_append, hdrop]
    simp only [htake, htake', hdrop']

theorem matchQuote_append (s : Str) : (matchQuote s).1 ++ (matchQuote s).2 = s := by
  unfold matchQuote
  split <;> rfl

theorem matchQuote_cons {c : Char} (hc : c ≠ '"') (s : Str) :
    matchQuote (c :: s) = ([], c :: s) := by
  unfold matchQuote
  split
  · rename_i heq
    exact absurd (List.cons.inj heq).1 hc
  · rfl

/-- A quotation mark is matched where there is one. -/
theorem matchQuote_of_head {q s : Str} (hq : q = [] ∨ q = ['"']) (hs : ∀ c ∈ s.head?, c ≠ '"') :
    matchQuote (q ++ s) = (q, s) := by
  rcases hq with rfl | rfl
  · rcases s with _ | ⟨c, s⟩
    · rfl
    · exact matchQuote_cons (hs c rfl) s
  · rfl

theorem matchQuote_fst (s : Str) : (matchQuote s).1 = [] ∨ (matchQuote s).1 = ['"'] := by
  unfold matchQuote
  split
  · exact Or.inr rfl
  · exact Or.inl rfl

/-- What stands before the equals sign where a line assigns a secret key. -/
def KeyText (w : Str) : Prop :=
  ∃ ws q key q' before, w = ws ++ (q ++ (key ++ (q' ++ before))) ∧ key.map fold ∈ secretKeys ∧
    (q = [] ∨ q = ['"']) ∧ (q' = [] ∨ q' = ['"']) ∧ (∀ c ∈ ws, isBlank c = true) ∧
    ∀ c ∈ before, isBlank c = true

theorem KeyText.not_mem {w : Str} (h : KeyText w) {c : Char}
    (hc : (secretKeys.all fun k => k.all fun p => p ≠ fold c) = true) (hblank : isBlank c = false)
    (hquote : c ≠ '"') : c ∉ w := by
  obtain ⟨ws, q, key, q', before, rfl, hkey, hq, hq', hws, hbefore⟩ := h
  have hno : ∀ l : Str, (∀ d ∈ l, isBlank d = true) → c ∉ l := fun l hl hmem =>
    Bool.false_ne_true (hblank.symm.trans (hl c hmem))
  have hnoq : ∀ l : Str, l = [] ∨ l = ['"'] → c ∉ l := by
    rintro l (rfl | rfl)
    · exact List.not_mem_nil
    · exact fun hmem => hquote (List.mem_singleton.mp hmem)
  simp only [List.mem_append, not_or]
  exact ⟨hno _ hws, hnoq _ hq, not_mem_of_fold hkey hc, hnoq _ hq', hno _ hbefore⟩

theorem exists_cons_of_fold {key : Str} (hkey : key.map fold ∈ secretKeys) :
    ∃ c key', key = c :: key' ∧ isBare c = true ∧ c ≠ '"' := by
  have hnil : key ≠ [] := by
    rintro rfl
    revert hkey
    decide
  obtain ⟨c, key', rfl⟩ := List.exists_cons_of_ne_nil hnil
  have hbare : ∀ d, isBare d = false → d ∉ c :: key' := by
    intro d hd
    have hcases : d ∈ [' ', '\t', '\n', '\r', Char.ofNat 0x0c, ',', '}', ']'] := by
      simpa [isBare, isBlank, or_assoc, imp_iff_not_or] using hd
    have hall : ([' ', '\t', '\n', '\r', Char.ofNat 0x0c, ',', '}', ']'].all fun e =>
        secretKeys.all fun k => k.all fun p => p ≠ fold e) = true := by decide
    exact not_mem_of_fold hkey (List.all_eq_true.mp hall d hcases)
  refine ⟨c, key', rfl, ?_, ?_⟩
  · rw [← Bool.not_eq_false]
    exact fun h => hbare c h List.mem_cons_self
  · rintro rfl
    exact not_mem_of_fold hkey (by decide) List.mem_cons_self

theorem isBlank_of_isBare {c : Char} (h : isBare c = true) : isBlank c = false := by
  unfold isBare at h
  simp only [Bool.and_eq_true, Bool.not_eq_true'] at h
  exact h.1.1.1

/-- A line assigns a value to a secret key at its start. `key` is all before the value. -/
def Assigns (line key value : Str) : Prop :=
  line = key ++ value ∧ (∀ c ∈ value.head?, isBlank c = false) ∧
    ∃ w after, key = w ++ '=' :: after ∧ KeyText w ∧ ∀ c ∈ after, isBlank c = true

theorem assigns_of_secretKeyLine {line key value : Str}
    (h : secretKeyLine line = some (key, value)) : Assigns line key value := by
  simp only [secretKeyLine] at h
  split at h
  · cases h
  · rename_i name rest hkey
    split at h
    · cases h
    · rename_i equals value' hequals
      obtain ⟨hname, hsplit⟩ := matchKey_iff.mp hkey
      obtain ⟨hrest, hhead, before, after, rfl, hbefore, hafter⟩ := matchEquals_iff.mp hequals
      cases h
      refine ⟨?_, hhead, line.takeWhile isBlank ++ ((matchQuote (line.dropWhile isBlank)).1 ++
        (name ++ ((matchQuote rest).1 ++ before))), after, by simp, ⟨_, _, _, _, _, rfl, hname,
        matchQuote_fst _, matchQuote_fst _, fun c => List.mem_takeWhile_imp, hbefore⟩, hafter⟩
      calc line = line.takeWhile isBlank ++ line.dropWhile isBlank :=
            List.takeWhile_append_dropWhile.symm
        _ = line.takeWhile isBlank ++ ((matchQuote (line.dropWhile isBlank)).1 ++
              (name ++ rest)) := by rw [← hsplit, matchQuote_append]
        _ = line.takeWhile isBlank ++ ((matchQuote (line.dropWhile isBlank)).1 ++
              (name ++ ((matchQuote rest).1 ++ ((before ++ '=' :: after) ++ value)))) := by
          rw [← hrest, matchQuote_append]
        _ = _ := by simp

/-- The name, with the quotation marks around it, is found where the blanks end. -/
theorem secretKeyLine_eq {ws q name q' s : Str} (hws : ∀ c ∈ ws, isBlank c = true)
    (hq : q = [] ∨ q = ['"']) (hname : name.map fold ∈ secretKeys) (hq' : q' = [] ∨ q' = ['"'])
    (hs : ∀ c ∈ s.head?, c ≠ '"') :
    secretKeyLine (ws ++ (q ++ (name ++ (q' ++ s)))) =
      (matchEquals s).map fun p => (ws ++ (q ++ (name ++ (q' ++ p.1))), p.2) := by
  obtain ⟨c, name', rfl, hc, hcq⟩ := exists_cons_of_fold hname
  have hfirst : ∀ d ∈ (q ++ (c :: name' ++ (q' ++ s))).head?, isBlank d = false := by
    rcases hq with rfl | rfl
    · rintro _ ⟨⟩
      exact isBlank_of_isBare hc
    · rintro _ ⟨⟩
      decide
  obtain ⟨htake, hdrop⟩ := takeWhile_append_of_head hws hfirst
  have hopen : matchQuote (q ++ (c :: name' ++ (q' ++ s))) = (q, c :: name' ++ (q' ++ s)) := by
    refine matchQuote_of_head hq ?_
    rintro _ ⟨⟩
    exact hcq
  have hkey : matchKey (c :: name' ++ (q' ++ s)) = some (c :: name', q' ++ s) :=
    matchKey_iff.mpr ⟨hname, rfl⟩
  rw [secretKeyLine, hdrop, htake]
  simp only [hopen, hkey, matchQuote_of_head hq' hs]
  cases matchEquals s with
  | none => rfl
  | some p => simp

theorem secretKeyLine_iff {line key value : Str} :
    secretKeyLine line = some (key, value) ↔ Assigns line key value := by
  refine ⟨assigns_of_secretKeyLine, ?_⟩
  rintro ⟨rfl, hhead, w, after, rfl, ⟨ws, q, name, q', before, rfl, hname, hq, hq', hws, hbefore⟩,
    hafter⟩
  have hequals : matchEquals (before ++ '=' :: (after ++ value)) =
      some (before ++ '=' :: after, value) :=
    matchEquals_iff.mpr ⟨by simp, hhead, before, after, rfl, hbefore, hafter⟩
  have hfirst : ∀ c ∈ (before ++ '=' :: (after ++ value)).head?, c ≠ '"' := by
    rcases before with _ | ⟨d, before⟩
    · rintro _ ⟨⟩
      decide
    · rintro _ ⟨⟩ rfl
      exact absurd (hbefore '"' List.mem_cons_self) (by decide)
  have hline : ws ++ (q ++ (name ++ (q' ++ before))) ++ '=' :: after ++ value =
      ws ++ (q ++ (name ++ (q' ++ (before ++ '=' :: (after ++ value))))) := by simp
  rw [hline, secretKeyLine_eq hws hq hname hq' hfirst, hequals]
  simp

/-- Whether a line assigns a secret key depends on what stands before its first equals sign. -/
theorem exists_assigns {w : Str} (hw : KeyText w) (s : Str) :
    ∃ key value, Assigns (w ++ '=' :: s) key value := by
  refine ⟨w ++ '=' :: s.takeWhile isBlank, s.dropWhile isBlank, ?_, isBlank_head?_dropWhile s, w, _,
    rfl, hw, fun c => List.mem_takeWhile_imp⟩
  rw [List.append_assoc, List.cons_append, List.takeWhile_append_dropWhile]

/-- A value and what follows it: a string between quotation marks or, where none is closed, all up
to a blank, a comma or a closing bracket. -/
inductive IsValue : Str → Str → Prop
  | quoted {q : Char} {inner t : Str} (hq : q = '"' ∨ q = '\'') (hno : q ∉ inner) :
    IsValue (q :: (inner ++ [q])) t
  | bare {c : Char} {v t : Str} (hv : ∀ d ∈ c :: v, isBare d = true)
      (ht : ∀ d ∈ t.head?, isBare d = false) (hopen : c = '"' ∨ c = '\'' → c ∉ v ++ t) :
    IsValue (c :: v) t

theorem matchValue_of_quote {q : Char} {inner t : Str} (hq : q = '"' ∨ q = '\'') (hno : q ∉ inner) :
    matchValue (q :: (inner ++ q :: t)) = some (inner.length + 2) := by
  have hmem : q ∈ inner ++ q :: t := List.mem_append_right inner List.mem_cons_self
  rcases hq with rfl | rfl
  · rw [matchValue, if_pos hmem, takeWhile_ne_append hno]
  · rw [matchValue, if_pos hmem, takeWhile_ne_append hno]

theorem matchValue_of_open {c : Char} {s : Str} (h : c = '"' ∨ c = '\'' → c ∉ s) :
    matchValue (c :: s) = if ((c :: s).takeWhile isBare).length = 0 then none
      else some ((c :: s).takeWhile isBare).length := by
  unfold matchValue
  split
  · rename_i heq
    obtain ⟨rfl, rfl⟩ := List.cons.inj heq
    rw [if_neg (h (Or.inl rfl))]
  · rename_i heq
    obtain ⟨rfl, rfl⟩ := List.cons.inj heq
    rw [if_neg (h (Or.inr rfl))]
  · rfl

theorem IsValue.matchValue_eq {v t : Str} (h : IsValue v t) :
    matchValue (v ++ t) = some v.length := by
  cases h with
  | @quoted q inner t hq hno =>
    rw [List.cons_append, List.append_assoc, List.singleton_append, matchValue_of_quote hq hno,
      List.length_cons, List.length_append]
    rfl
  | @bare c v t hv ht hopen =>
    have htake : (c :: v ++ t).takeWhile isBare = c :: v := by
      rw [List.takeWhile_append_of_pos hv]
      rcases t with _ | ⟨d, t⟩
      · exact List.append_nil _
      · rw [List.takeWhile_cons, ht d rfl]
        exact List.append_nil _
    rw [List.cons_append] at htake ⊢
    rw [matchValue_of_open hopen, htake]
    rfl

theorem exists_isValue {s : Str} {n : ℕ} (h : matchValue s = some n) :
    ∃ v t, s = v ++ t ∧ IsValue v t ∧ v.length = n := by
  have hsome : ∀ v t, s = v ++ t → IsValue v t →
      ∃ v t, s = v ++ t ∧ IsValue v t ∧ v.length = n := by
    rintro v t rfl hv
    exact ⟨v, t, rfl, hv, Option.some.inj (hv.matchValue_eq.symm.trans h)⟩
  rcases s with _ | ⟨c, s⟩
  · cases h
  by_cases hclosed : (c = '"' ∨ c = '\'') ∧ c ∈ s
  · obtain ⟨inner, t, rfl, hno⟩ := List.eq_append_cons_of_mem hclosed.2
    exact hsome (c :: (inner ++ [c])) t (by simp) (.quoted hclosed.1 hno)
  · have hopen : c = '"' ∨ c = '\'' → c ∉ s := fun hq hmem => hclosed ⟨hq, hmem⟩
    rw [matchValue_of_open hopen] at h
    split_ifs at h with hnil
    have hbare : isBare c = true := by
      by_contra hno
      rw [List.takeWhile_cons_of_neg hno] at hnil
      exact hnil rfl
    refine hsome (c :: s.takeWhile isBare) (s.dropWhile isBare)
      (by rw [List.cons_append, List.takeWhile_append_dropWhile]) (.bare ?_ (fun d hd => ?_) ?_)
    · exact List.forall_mem_cons.mpr ⟨hbare, fun d => List.mem_takeWhile_imp⟩
    · have hnot := List.head?_dropWhile_not isBare s
      rw [Option.mem_def.mp hd] at hnot
      simpa using hnot
    · rw [List.takeWhile_append_dropWhile]
      exact hopen

/-- A value is not empty, and ends with a quotation mark or where no unquoted value goes on. -/
theorem IsValue.ends {v t : Str} (h : IsValue v t) : v ≠ [] ∧
    ((∀ c ∈ v.getLast?, isWord c = false) ∨ ∀ c ∈ t.head?, isBare c = false) := by
  cases h with
  | @quoted q inner t hq hno =>
    refine ⟨List.cons_ne_nil _ _, Or.inl fun c hc => ?_⟩
    rw [← List.cons_append, List.getLast?_concat] at hc
    obtain rfl := Option.some.inj hc
    rcases hq with rfl | rfl <;> decide
  | bare hv ht => exact ⟨List.cons_ne_nil _ _, Or.inr ht⟩

theorem IsValue.isBlank_head? {v t : Str} (h : IsValue v t) :
    ∀ c ∈ (v ++ t).head?, isBlank c = false := by
  cases h with
  | quoted hq =>
    rintro c ⟨⟩
    rcases hq with rfl | rfl <;> decide
  | bare hv =>
    rintro c ⟨⟩
    exact isBlank_of_isBare (hv _ List.mem_cons_self)

/-- A quotation mark starts a value, whether or not the string is closed. -/
theorem exists_isValue_quote (s : Str) : ∃ v t, '"' :: s = v ++ t ∧ IsValue v t := by
  have hsome : (matchValue ('"' :: s)).isSome := by
    have hbare : (('"' :: s).takeWhile isBare).length ≠ 0 := by
      rw [List.takeWhile_cons_of_pos (by decide)]
      exact Nat.succ_ne_zero _
    simp only [matchValue, if_neg hbare]
    split_ifs <;> rfl
  obtain ⟨n, hn⟩ := Option.isSome_iff_exists.mp hsome
  obtain ⟨v, t, hs, hv, -⟩ := exists_isValue hn
  exact ⟨v, t, hs, hv⟩

/-- What is kept of a match of `secretInline`: a name and an equals sign. -/
def Kept (kept : Str) : Prop :=
  ∃ key before after, kept = key ++ (before ++ '=' :: after) ∧ key.map fold ∈ secretKeys ∧
    (∀ c ∈ before, isBlank c = true) ∧ ∀ c ∈ after, isBlank c = true

/-- The place is at the start or the end of a word. -/
def AtBoundary (before : Option Char) (s : Str) : Prop :=
  (before.map isWord).getD false ≠ (s.head?.map isWord).getD false

/-- After a character, a secret key with an equals sign, a value, and what follows it. -/
def Finds (before : Option Char) (kept v t : Str) : Prop :=
  AtBoundary before (kept ++ (v ++ t)) ∧ Kept kept ∧ IsValue v t

theorem matchInline_of_kept {b : Option Char} {kept r : Str} (hb : AtBoundary b (kept ++ r))
    (hkept : Kept kept) (hr : ∀ c ∈ r.head?, isBlank c = false) :
    matchInline b (kept ++ r) = (matchValue r).map fun n => (kept, kept.length + n) := by
  obtain ⟨key, before, after, rfl, hname, hbefore, hafter⟩ := hkept
  have hkey : matchKey (key ++ (before ++ '=' :: after) ++ r) =
      some (key, before ++ '=' :: after ++ r) :=
    matchKey_iff.mpr ⟨hname, List.append_assoc _ _ _⟩
  have hequals : matchEquals (before ++ '=' :: after ++ r) = some (before ++ '=' :: after, r) :=
    matchEquals_iff.mpr ⟨rfl, hr, before, after, rfl, hbefore, hafter⟩
  rw [matchInline, if_neg hb]
  simp only [hkey, hequals]

theorem matchInline_iff {b : Option Char} {s kept : Str} {n : ℕ} :
    matchInline b s = some (kept, n) ↔
      ∃ v t, s = kept ++ (v ++ t) ∧ Finds b kept v t ∧ n = kept.length + v.length := by
  constructor
  · intro h
    unfold matchInline at h
    split_ifs at h with hb
    split at h
    · cases h
    · rename_i key rest hkey
      split at h
      · cases h
      · rename_i equals r hequals
        obtain ⟨m, hm, heq⟩ := Option.map_eq_some_iff.mp h
        obtain ⟨rfl, rfl⟩ := Prod.mk.inj heq
        obtain ⟨hname, rfl⟩ := matchKey_iff.mp hkey
        obtain ⟨rfl, -, before, after, rfl, hbefore, hafter⟩ := matchEquals_iff.mp hequals
        obtain ⟨v, t, rfl, hv, rfl⟩ := exists_isValue hm
        rw [← List.append_assoc] at hb ⊢
        exact ⟨v, t, rfl, ⟨hb, ⟨key, before, after, rfl, hname, hbefore, hafter⟩, hv⟩, rfl⟩
  · rintro ⟨v, t, rfl, ⟨hb, hkept, hv⟩, rfl⟩
    rw [matchInline_of_kept hb hkept hv.isBlank_head?, hv.matchValue_eq]
    rfl

theorem Kept.exists_cons {kept : Str} (h : Kept kept) :
    ∃ c kept', kept = c :: kept' ∧ isBare c = true := by
  obtain ⟨key, before, after, rfl, hkey, -, -⟩ := h
  obtain ⟨c, key', rfl, hc, -⟩ := exists_cons_of_fold hkey
  exact ⟨c, _, rfl, hc⟩

theorem Kept.exists_equals {kept : Str} (h : Kept kept) :
    ∃ w after, kept = w ++ '=' :: after ∧ '=' ∉ w ∧ ∀ c ∈ after, isBlank c = true := by
  obtain ⟨key, before, after, rfl, hkey, hbefore, hafter⟩ := h
  refine ⟨key ++ before, after, by simp, ?_, hafter⟩
  rw [List.mem_append, not_or]
  refine ⟨not_mem_of_fold hkey (by decide), fun hmem => ?_⟩
  exact absurd (hbefore _ hmem) (by decide)

/-- A value goes on after its line: it opens a string of several lines or an array, and what follows
has no closer. -/
def Opens (closer : Closer) (value : Str) : Prop :=
  ∃ rest, value = (if closer = .array then "[".toList else closer.text) ++ rest ∧
    ¬ closer.text <:+: rest

theorem closerOf_iff {value : Str} {closer : Closer} :
    closerOf value = some closer ↔ Opens closer value := by
  constructor
  · intro h
    unfold closerOf at h
    split_ifs at h with hbasic hliteral harray <;> cases h
    · obtain ⟨rest, rfl⟩ := of_decide_eq_true hbasic.1
      exact ⟨rest, rfl, hbasic.2⟩
    · obtain ⟨rest, rfl⟩ := of_decide_eq_true hliteral.1
      exact ⟨rest, rfl, hliteral.2⟩
    · obtain ⟨rest, rfl⟩ := of_decide_eq_true harray.1
      exact ⟨rest, rfl, fun hin => harray.2 (hin.trans (List.suffix_append _ _).isInfix)⟩
  · rintro ⟨rest, rfl, hno⟩
    cases closer with
    | basic | literal => simp_all [closerOf, hasPrefix, Closer.text]
    | array => simp_all [closerOf, hasPrefix, Closer.text, List.infix_cons_iff]

end SplitDNS.Diag
