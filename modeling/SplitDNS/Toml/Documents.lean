import Mathlib.Data.List.Chain
import SplitDNS.Go.Basic

/-! # TOML documents

The documents of TOML 1.0 as trees that keep every character of their text:
white space, comments, the forms of keys and strings. The constructors are the
rules of the grammar. What numbers and dates look like, and which names may be
defined together, is left open.
-/

namespace Toml

open Go (Str)

/-! ## Between the values -/

inductive Blank
  | space | tab

def Blank.char : Blank → Char
  | .space => ' '
  | .tab => '\t'

abbrev Ws := List Blank

def Ws.text (ws : Ws) : Str := ws.map Blank.char

inductive Newline
  | lf | crlf

def Newline.text : Newline → Str
  | .lf => ['\n']
  | .crlf => ['\r', '\n']

/-- A character that may stand in comments and strings: no control character but the tab. -/
def IsText (c : Char) : Prop := c = '\t' ∨ (' ' ≤ c ∧ c ≠ Char.ofNat 0x7f)

instance (c : Char) : Decidable (IsText c) := inferInstanceAs (Decidable (_ ∨ _))

structure Comment where
  body : Str
  isText : ∀ c ∈ body, IsText c

def Comment.text (c : Comment) : Str := '#' :: c.body

def commentText : Option Comment → Str
  | none => []
  | some c => c.text

inductive GapPiece
  | blank (b : Blank)
  | eol (comment : Option Comment) (nl : Newline)

abbrev Gap := List GapPiece

def GapPiece.text : GapPiece → Str
  | .blank b => [b.char]
  | .eol comment nl => commentText comment ++ nl.text

def Gap.text (gap : Gap) : Str := gap.flatMap GapPiece.text

/-! ## Strings -/

def hexVal (c : Char) : Option ℕ :=
  if c.isDigit then some (c.toNat - '0'.toNat)
  else if 'a' ≤ c ∧ c ≤ 'f' then some (c.toNat - 'a'.toNat + 10)
  else if 'A' ≤ c ∧ c ≤ 'F' then some (c.toNat - 'A'.toNat + 10)
  else none

/-- The number that some hexadecimal digits stand for. -/
def hexNumber (digits : Str) : Option ℕ :=
  digits.foldlM (fun n c => (hexVal c).map (16 * n + ·)) 0

/-- An escape of one letter, or of four or eight digits. -/
inductive Escape
  | backspace | tab | newline | formFeed | carriageReturn | quote | backslash
  | code4 (digits : Str) (value : Char) (length : digits.length = 4)
      (isValue : hexNumber digits = some value.toNat)
  | code8 (digits : Str) (value : Char) (length : digits.length = 8)
      (isValue : hexNumber digits = some value.toNat)

def Escape.text : Escape → Str
  | .backspace => ['\\', 'b']
  | .tab => ['\\', 't']
  | .newline => ['\\', 'n']
  | .formFeed => ['\\', 'f']
  | .carriageReturn => ['\\', 'r']
  | .quote => ['\\', '"']
  | .backslash => ['\\', '\\']
  | .code4 digits _ _ _ => '\\' :: 'u' :: digits
  | .code8 digits _ _ _ => '\\' :: 'U' :: digits

def Escape.value : Escape → Char
  | .backspace => Char.ofNat 8
  | .tab => '\t'
  | .newline => '\n'
  | .formFeed => Char.ofNat 12
  | .carriageReturn => '\r'
  | .quote => '"'
  | .backslash => '\\'
  | .code4 _ value _ _ => value
  | .code8 _ value _ _ => value

inductive BasicChar
  | plain (c : Char) (isPlain : IsText c ∧ c ≠ '"' ∧ c ≠ '\\')
  | escape (e : Escape)

def BasicChar.text : BasicChar → Str
  | .plain c _ => [c]
  | .escape e => e.text

def BasicChar.value : BasicChar → Char
  | .plain c _ => c
  | .escape e => e.value

structure LiteralChar where
  char : Char
  isLiteral : IsText char ∧ char ≠ '\''

/-- A part of a string between three double quotes: up to two quotes may stand in a row. -/
inductive BasicPiece
  | char (c : BasicChar)
  | newline (nl : Newline)
  | lineEnd (ws : Ws) (nl : Newline) (skipped : List (Blank ⊕ Newline))
  | quotes (two : Bool)

def BasicPiece.isQuotes : BasicPiece → Bool
  | .quotes _ => true
  | _ => false

def BasicPiece.text : BasicPiece → Str
  | .char c => c.text
  | .newline nl => nl.text
  | .lineEnd ws nl skipped =>
    '\\' :: ws.text ++ nl.text ++ skipped.flatMap (Sum.elim (fun b => [b.char]) Newline.text)
  | .quotes two => if two then ['"', '"'] else ['"']

inductive LiteralPiece
  | char (c : LiteralChar)
  | newline (nl : Newline)
  | quotes (two : Bool)

def LiteralPiece.isQuotes : LiteralPiece → Bool
  | .quotes _ => true
  | _ => false

def LiteralPiece.text : LiteralPiece → Str
  | .char c => [c.char]
  | .newline nl => nl.text
  | .quotes two => if two then ['\'', '\''] else ['\'']

inductive StringLit
  | basic (body : List BasicChar)
  | literal (body : List LiteralChar)
  | longBasic (body : List BasicPiece)
      (apart : body.IsChain fun p q => (p.isQuotes && q.isQuotes) = false)
  | longLiteral (body : List LiteralPiece)
      (apart : body.IsChain fun p q => (p.isQuotes && q.isQuotes) = false)

def StringLit.text : StringLit → Str
  | .basic body => '"' :: body.flatMap BasicChar.text ++ ['"']
  | .literal body => '\'' :: body.map LiteralChar.char ++ ['\'']
  | .longBasic body _ => '"' :: '"' :: '"' :: body.flatMap BasicPiece.text ++ ['"', '"', '"']
  | .longLiteral body _ =>
    '\'' :: '\'' :: '\'' :: body.flatMap LiteralPiece.text ++ ['\'', '\'', '\'']

/-! ## Keys -/

inductive KeyPart
  | bare (text : Str)
      (isBare : text ≠ [] ∧ ∀ c ∈ text, (c.isAlphanum || c = '_' || c = '-') = true)
  | basic (body : List BasicChar)
  | literal (body : List LiteralChar)

def KeyPart.text : KeyPart → Str
  | .bare text _ => text
  | .basic body => (StringLit.basic body).text
  | .literal body => (StringLit.literal body).text

def KeyPart.name : KeyPart → Str
  | .bare text _ => text
  | .basic body => body.map BasicChar.value
  | .literal body => body.map LiteralChar.char

/-- A key of one part, or of several with dots between them. -/
structure Key where
  first : KeyPart
  rest : List (Ws × Ws × KeyPart)

def Key.text (k : Key) : Str :=
  k.first.text ++ k.rest.flatMap fun p => p.1.text ++ '.' :: p.2.1.text ++ p.2.2.text

def Key.path (k : Key) : List Str := k.first.name :: k.rest.map fun p => p.2.2.name

/-- The name that a value is assigned to: the last one of the path. -/
def Key.name (k : Key) : Str := k.path.getLast (List.cons_ne_nil _ _)

structure Head where
  key : Key
  before : Ws
  after : Ws

def Head.text (h : Head) : Str := h.key.text ++ h.before.text ++ '=' :: h.after.text

/-! ## Values -/

mutual

inductive Value
  | string (s : StringLit)
  | scalar (text : Str)
  | array (items : Items)
  | emptyTable (ws : Ws)
  | table (pairs : Pairs)

/-- The inside of an array, which may end with a comma. -/
inductive Items
  | nil (gap : Gap)
  | last (before : Gap) (v : Value) (after : Gap)
  | cons (before : Gap) (v : Value) (after : Gap) (rest : Items)

inductive Pairs
  | last (before : Ws) (head : Head) (v : Value) (after : Ws)
  | cons (before : Ws) (head : Head) (v : Value) (after : Ws) (rest : Pairs)

end

mutual

def Value.text : Value → Str
  | .string s => s.text
  | .scalar text => text
  | .array items => '[' :: items.text ++ [']']
  | .emptyTable ws => '{' :: ws.text ++ ['}']
  | .table pairs => '{' :: pairs.text ++ ['}']

def Items.text : Items → Str
  | .nil gap => gap.text
  | .last before v after => before.text ++ v.text ++ after.text
  | .cons before v after rest => before.text ++ v.text ++ after.text ++ ',' :: rest.text

def Pairs.text : Pairs → Str
  | .last before head v after => before.text ++ head.text ++ v.text ++ after.text
  | .cons before head v after rest =>
    before.text ++ head.text ++ v.text ++ after.text ++ ',' :: rest.text

end

def Value.isTable : Value → Bool
  | .emptyTable _ | .table _ => true
  | _ => false

def Value.isStringOrArray : Value → Bool
  | .string _ | .array _ => true
  | _ => false

/-- A key of an inline table: its path, and whether its value is a table itself. -/
abbrev Definition := List Str × Bool

def Pairs.definitions : Pairs → List Definition
  | .last _ head v _ => [(head.key.path, v.isTable)]
  | .cons _ head v _ rest => (head.key.path, v.isTable) :: rest.definitions

inductive LineDefinition
  | pair (d : Definition)
  | table (path : List Str)
  | arrayTable (path : List Str)

/-- The part of TOML that is left open: which texts are numbers, booleans and dates, and which
names may be defined together in an inline table and in a document. -/
structure Rules where
  scalar : Str → Prop
  table : List Definition → Prop
  document : List LineDefinition → Prop

mutual

def Value.Ok (R : Rules) : Value → Prop
  | .string _ => True
  | .scalar text => R.scalar text
  | .array items => items.Ok R
  | .emptyTable _ => R.table []
  | .table pairs => pairs.Ok R ∧ R.table pairs.definitions

def Items.Ok (R : Rules) : Items → Prop
  | .nil _ => True
  | .last _ v _ => v.Ok R
  | .cons _ v _ rest => v.Ok R ∧ rest.Ok R

def Pairs.Ok (R : Rules) : Pairs → Prop
  | .last _ _ v _ => v.Ok R
  | .cons _ _ v _ rest => v.Ok R ∧ rest.Ok R

end

/-! ## Documents -/

/-- A line with an assignment, with the header of a table, or with neither. -/
inductive Line
  | blank (ws : Ws) (comment : Option Comment)
  | pair (ws : Ws) (head : Head) (v : Value) (ws' : Ws) (comment : Option Comment)
  | table (ws : Ws) (before : Ws) (key : Key) (after : Ws) (ws' : Ws) (comment : Option Comment)
  | arrayTable (ws : Ws) (before : Ws) (key : Key) (after : Ws) (ws' : Ws)
      (comment : Option Comment)

def Line.text : Line → Str
  | .blank ws comment => ws.text ++ commentText comment
  | .pair ws head v ws' comment =>
    ws.text ++ head.text ++ v.text ++ (ws'.text ++ commentText comment)
  | .table ws before key after ws' comment =>
    ws.text ++ '[' :: before.text ++ key.text ++ after.text ++ ']' :: ws'.text ++
      commentText comment
  | .arrayTable ws before key after ws' comment =>
    ws.text ++ '[' :: '[' :: before.text ++ key.text ++ after.text ++ ']' :: ']' :: ws'.text ++
      commentText comment

def Line.definitions : Line → List LineDefinition
  | .blank _ _ => []
  | .pair _ head v _ _ => [.pair (head.key.path, v.isTable)]
  | .table _ _ key _ _ _ => [.table key.path]
  | .arrayTable _ _ key _ _ _ => [.arrayTable key.path]

def Line.Ok (R : Rules) : Line → Prop
  | .pair _ _ v _ _ => v.Ok R
  | _ => True

structure Document where
  first : Line
  rest : List (Newline × Line)

def Document.text (d : Document) : Str :=
  d.first.text ++ d.rest.flatMap fun p => p.1.text ++ p.2.text

def Document.definitions (d : Document) : List LineDefinition :=
  d.first.definitions ++ d.rest.flatMap fun p => p.2.definitions

def Document.Ok (R : Rules) (d : Document) : Prop :=
  d.first.Ok R ∧ (∀ p ∈ d.rest, p.2.Ok R) ∧ R.document d.definitions

/-! ## Values of chosen keys -/

def Value.masked : Value := .string (.literal [])

/-- A string or an array that is assigned to a key of a chosen name. -/
def IsSlot (chosen : Str → Bool) (head : Head) (v : Value) : Prop :=
  chosen head.key.name = true ∧ v.isStringOrArray = true

instance (chosen : Str → Bool) (head : Head) (v : Value) : Decidable (IsSlot chosen head v) :=
  inferInstanceAs (Decidable (_ ∧ _))

/-- The mask of a value behind a key, given that of the value by itself. -/
def maskAt (chosen : Str → Bool) (head : Head) (v masked : Value) : Value :=
  if IsSlot chosen head v then .masked else masked

mutual

/-- The values that are assigned to chosen names are masked. -/
def Value.mask (chosen : Str → Bool) : Value → Value
  | .string s => .string s
  | .scalar text => .scalar text
  | .array items => .array (items.mask chosen)
  | .emptyTable ws => .emptyTable ws
  | .table pairs => .table (pairs.mask chosen)

def Items.mask (chosen : Str → Bool) : Items → Items
  | .nil gap => .nil gap
  | .last before v after => .last before (v.mask chosen) after
  | .cons before v after rest => .cons before (v.mask chosen) after (rest.mask chosen)

def Pairs.mask (chosen : Str → Bool) : Pairs → Pairs
  | .last before head v after =>
    .last before head (maskAt chosen head v (v.mask chosen)) after
  | .cons before head v after rest =>
    .cons before head (maskAt chosen head v (v.mask chosen)) after
      (rest.mask chosen)

end

def Line.mask (chosen : Str → Bool) : Line → Line
  | .pair ws head v ws' comment =>
    .pair ws head (maskAt chosen head v (v.mask chosen)) ws' comment
  | line => line

def Document.mask (chosen : Str → Bool) (d : Document) : Document where
  first := d.first.mask chosen
  rest := d.rest.map fun p => (p.1, p.2.mask chosen)

/-- Two texts of documents that are the same but for the values of chosen names. -/
def SameBut (R : Rules) (chosen : Str → Bool) (text text' : Str) : Prop :=
  ∃ d d' : Document, d.Ok R ∧ d'.Ok R ∧ d.text = text ∧ d'.text = text' ∧
    d.mask chosen = d'.mask chosen

end Toml
