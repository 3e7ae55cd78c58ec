import Mathlib.Tactic.IntervalCases
import SplitDNS.Go.Netip

/-! # The text form of addresses

`Addr.String` writes the dotted or the compressed colon form, `ParseAddr` reads
both, with an embedded IPv4 tail and a zone. Every valid address is read back
from its own text, so comparing texts is comparing addresses.
-/

namespace Go.Netip

open Strings

def octets (b : BitVec 32) : List ℕ := (List.range 4).map (octet b)

def groups (b : BitVec 128) : List ℕ := (List.range 8).map (group b)

def ofOctets (os : List ℕ) : BitVec 32 := BitVec.ofNat 32 (os.foldl (fun acc o => acc * 256 + o) 0)

def ofGroups (gs : List ℕ) : BitVec 128 :=
  BitVec.ofNat 128 (gs.foldl (fun acc g => acc * 65536 + g) 0)

/-- A group in lower-case hexadecimal without leading zeros. -/
def appendHex (x : ℕ) : Str :=
  (if 0x1000 ≤ x then [Nat.digitChar (x / 0x1000)] else []) ++
    (if 0x100 ≤ x then [Nat.digitChar (x / 0x100 % 16)] else []) ++
    (if 0x10 ≤ x then [Nat.digitChar (x / 0x10 % 16)] else []) ++ [Nat.digitChar (x % 16)]

/-- The first longest run of at least two zero groups, or `(255, 255)`. -/
def zeroRun (gs : List ℕ) : ℕ × ℕ :=
  (List.range 8).foldl (fun r i =>
    let l := ((gs.drop i).takeWhile (· = 0)).length
    if 2 ≤ l ∧ r.2 - r.1 < l then (i, i + l) else r) (255, 255)

def string4 (b : BitVec 32) : Str := join ((octets b).map formatUint) '.'

def string6 (b : BitVec 128) : Str :=
  let r := zeroRun (groups b)
  if r.1 = 255 then join ((groups b).map appendHex) ':'
  else join (((groups b).take r.1).map appendHex) ':' ++ [':', ':'] ++
    join (((groups b).drop r.2).map appendHex) ':'

def withZone (s zone : Str) : Str := if zone = [] then s else s ++ '%' :: zone

def Addr.string : Addr → Str
  | .invalid => "invalid IP".toList
  | .v4 b => string4 b
  | .v6 b z =>
    if (Addr.v6 b z).is4In6 then withZone ("::ffff:".toList ++ string4 (b.setWidth 32)) z
    else withZone (string6 b) z

def hexVal (c : Char) : Option ℕ :=
  if '0' ≤ c ∧ c ≤ '9' then some (c.toNat - '0'.toNat)
  else if 'a' ≤ c ∧ c ≤ 'f' then some (c.toNat - 'a'.toNat + 10)
  else if 'A' ≤ c ∧ c ≤ 'F' then some (c.toNat - 'A'.toNat + 10)
  else none

def parseHexField (f : Str) : Option ℕ :=
  if 1 ≤ f.length ∧ f.length ≤ 4 then f.foldlM (fun acc c => (hexVal c).map (acc * 16 + ·)) 0
  else none

def parseOctet (f : Str) : Option ℕ :=
  if f.length ≠ 1 ∧ f.head? = some '0' then none else parseUint f 8

def parseIPv4Fields (s : Str) : Option (List ℕ) :=
  if (split s '.').length = 4 then (split s '.').mapM parseOctet else none

/-- Colon-separated groups, the last of which may be an embedded IPv4 address. -/
def parseGroups : List Str → Option (List ℕ)
  | [] => some []
  | [f] =>
    if '.' ∈ f then
      (parseIPv4Fields f).map fun os => [os.getD 0 0 * 256 + os.getD 1 0,
        os.getD 2 0 * 256 + os.getD 3 0]
    else (parseHexField f).map ([·])
  | f :: fs => (parseHexField f).bind fun g => (parseGroups fs).map (g :: ·)

/-- The text before and after the first `::`. -/
def cutEllipsis : Str → Option (Str × Str)
  | [] => none
  | [_] => none
  | c :: d :: s =>
    if c = ':' ∧ d = ':' then some ([], s)
    else (cutEllipsis (d :: s)).map fun p => (c :: p.1, p.2)

def parseIPv6Groups (s : Str) : Option (List ℕ) :=
  match cutEllipsis s with
  | none => (parseGroups (split s ':')).filter (·.length = 8)
  | some (l, r) =>
    (if l = [] then some [] else (split l ':').mapM parseHexField).bind fun gl =>
      (if r = [] then some [] else parseGroups (split r ':')).bind fun gr =>
        if gl.length + gr.length ≤ 7 then
          some (gl ++ List.replicate (8 - (gl.length + gr.length)) 0 ++ gr)
        else none

def parseIPv6 (s : Str) : Option Addr :=
  let body := s.takeWhile (· ≠ '%')
  let zone := (s.dropWhile (· ≠ '%')).tail
  if '%' ∈ s ∧ zone = [] then none
  else (parseIPv6Groups body).map fun gs => .v6 (ofGroups gs) zone

/-- `netip.ParseAddr`: the first of `.`, `:` and `%` decides the form. -/
def parseAddr (s : Str) : Option Addr :=
  match s.find? (fun c => c = '.' || c = ':' || c = '%') with
  | some '.' => (parseIPv4Fields s).map fun os => .v4 (ofOctets os)
  | some ':' => parseIPv6 s
  | _ => none

/-- `netip.ParseAddrPort`: the text before the last colon is an address, in brackets iff it is an
IPv6 one, and the text after it a port. -/
def parseAddrPort (s : Str) : Option (Addr × UInt16) :=
  let port := s.rtakeWhile (· ≠ ':')
  let ip := (s.rdropWhile (· ≠ ':')).dropLast
  let bracketed := ip.head? = some '[' && ip.getLast? = some ']' && 2 ≤ ip.length
  if ':' ∉ s then none
  else if ip.head? = some '[' && !bracketed then none
  else do
    let port ← parseUint port 16
    let addr ← parseAddr (if bracketed then ip.tail.dropLast else ip)
    if addr.is6 = bracketed then some (addr, UInt16.ofNat port) else none

theorem Addr.string_v4 (b : BitVec 32) : (Addr.v4 b).string = string4 b := rfl

theorem Addr.string_v6 (b : BitVec 128) (z : Str) :
    (Addr.v6 b z).string =
      if (Addr.v6 b z).is4In6 then withZone ("::ffff:".toList ++ string4 (b.setWidth 32)) z
      else withZone (string6 b) z := rfl

theorem hexVal_digitChar {d : ℕ} (h : d < 16) : hexVal (Nat.digitChar d) = some d := by
  interval_cases d <;> rfl

theorem digitChar_ne_sep {d : ℕ} (h : d < 16) :
    Nat.digitChar d ≠ ':' ∧ Nat.digitChar d ≠ '.' ∧ Nat.digitChar d ≠ '%' ∧
      isSpace (Nat.digitChar d) = false ∧ Nat.digitChar d ≠ ',' := by
  interval_cases d <;> decide

theorem foldlM_hexVal {ds : List ℕ} (h : ∀ d ∈ ds, d < 16) (acc : ℕ) :
    (ds.map Nat.digitChar).foldlM (fun acc c => (hexVal c).map (acc * 16 + ·)) acc =
      some (ds.foldl (fun acc d => acc * 16 + d) acc) := by
  induction ds generalizing acc with
  | nil => rfl
  | cons d ds ih =>
    rw [List.forall_mem_cons] at h
    rw [List.map_cons, List.foldlM_cons, hexVal_digitChar h.1]
    exact ih h.2 _

theorem parseHexField_digits {ds : List ℕ} {x : ℕ} (h : ∀ d ∈ ds, d < 16)
    (hlen : 1 ≤ ds.length ∧ ds.length ≤ 4) (hx : ds.foldl (fun acc d => acc * 16 + d) 0 = x) :
    parseHexField (ds.map Nat.digitChar) = some x := by
  rw [parseHexField, List.length_map, if_pos hlen, foldlM_hexVal h, hx]

theorem parseHexField_appendHex {x : ℕ} (h : x < 65536) : parseHexField (appendHex x) = some x := by
  unfold appendHex
  by_cases h3 : 0x1000 ≤ x
  · rw [if_pos h3, if_pos (by omega), if_pos (by omega)]
    exact @parseHexField_digits [x / 0x1000, x / 0x100 % 16, x / 0x10 % 16, x % 16] x
      (by simp; omega) (by simp) (by simp only [List.foldl]; omega)
  rw [if_neg h3]
  by_cases h2 : 0x100 ≤ x
  · rw [if_pos h2, if_pos (by omega)]
    exact @parseHexField_digits [x / 0x100 % 16, x / 0x10 % 16, x % 16] x
      (by simp; omega) (by simp) (by simp only [List.foldl]; omega)
  rw [if_neg h2]
  by_cases h1 : 0x10 ≤ x
  · rw [if_pos h1]
    exact @parseHexField_digits [x / 0x10 % 16, x % 16] x
      (by simp; omega) (by simp) (by simp only [List.foldl]; omega)
  rw [if_neg h1]
  exact @parseHexField_digits [x % 16] x
    (by simp; omega) (by simp) (by simp only [List.foldl]; omega)

theorem appendHex_ne_nil (x : ℕ) : appendHex x ≠ [] := by simp [appendHex]

theorem appendHex_no_sep {x : ℕ} (h : x < 65536) {c : Char} (hc : c ∈ appendHex x) :
    c ≠ ':' ∧ c ≠ '.' ∧ c ≠ '%' ∧ isSpace c = false ∧ c ≠ ',' := by
  simp only [appendHex, List.mem_append, List.mem_ite_nil_right, List.mem_singleton] at hc
  rcases hc with ((⟨_, rfl⟩ | ⟨_, rfl⟩) | ⟨_, rfl⟩) | rfl <;>
    exact digitChar_ne_sep (by omega)

theorem parseOctet_formatUint {x : ℕ} (h : x < 256) : parseOctet (formatUint x) = some x := by
  have hzero : ¬ ((formatUint x).length ≠ 1 ∧ (formatUint x).head? = some '0') := by
    rintro ⟨hlen, hhead⟩
    rcases Nat.eq_zero_or_pos x with rfl | hpos
    · exact hlen rfl
    · exact head?_formatUint hpos hhead
  rw [parseOctet, if_neg hzero]
  exact parseUint_formatUint h

theorem formatUint_no_sep {x : ℕ} {c : Char} (hc : c ∈ formatUint x) :
    c ≠ ':' ∧ c ≠ '.' ∧ c ≠ '%' ∧ isSpace c = false ∧ c ≠ ',' := by
  have hdigit := isDigit_of_mem_formatUint hc
  refine ⟨?_, ?_, ?_, isSpace_of_isDigit hdigit, ?_⟩ <;>
    · rintro rfl
      cases hdigit

theorem octet_lt (b : BitVec 32) (i : ℕ) : octet b i < 256 := Nat.mod_lt _ (by decide)

theorem group_lt (b : BitVec 128) (i : ℕ) : group b i < 65536 := Nat.mod_lt _ (by decide)

theorem lt_of_mem_octets {b : BitVec 32} {x : ℕ} (h : x ∈ octets b) : x < 256 := by
  obtain ⟨i, -, rfl⟩ := List.mem_map.mp h
  exact octet_lt b i

theorem lt_of_mem_groups {b : BitVec 128} {x : ℕ} (h : x ∈ groups b) : x < 65536 := by
  obtain ⟨i, -, rfl⟩ := List.mem_map.mp h
  exact group_lt b i

theorem foldl_digits {base n k : ℕ} (hn : n < base ^ k) {j : ℕ} (hj : j ≤ k) :
    ((List.range j).map fun i => n / base ^ (k - 1 - i) % base).foldl
      (fun acc d => acc * base + d) 0 = n / base ^ (k - j) := by
  induction j with
  | zero => exact (Nat.div_eq_of_lt hn).symm
  | succ j ih =>
    have hk : k - j = k - 1 - j + 1 := by omega
    have hk' : k - (j + 1) = k - 1 - j := by omega
    rw [List.range_succ, List.map_append, List.foldl_append, ih (by omega), hk, hk', pow_succ,
      ← Nat.div_div_eq_div_mul]
    exact Nat.div_add_mod' _ _

theorem foldl_octets (b : BitVec 32) :
    (octets b).foldl (fun acc o => acc * 256 + o) 0 = b.toNat :=
  (@foldl_digits 256 b.toNat 4 b.isLt 4 le_rfl).trans (Nat.div_one _)

theorem ofOctets_octets (b : BitVec 32) : ofOctets (octets b) = b := by
  apply BitVec.eq_of_toNat_eq
  rw [ofOctets, foldl_octets, BitVec.toNat_ofNat]
  exact Nat.mod_eq_of_lt b.isLt

theorem ofGroups_groups (b : BitVec 128) : ofGroups (groups b) = b := by
  apply BitVec.eq_of_toNat_eq
  have hsum : (groups b).foldl (fun acc g => acc * 65536 + g) 0 = b.toNat :=
    (@foldl_digits 65536 b.toNat 8 b.isLt 8 le_rfl).trans (Nat.div_one _)
  rw [ofGroups, hsum, BitVec.toNat_ofNat]
  exact Nat.mod_eq_of_lt b.isLt

theorem mapM_map_eq_some {α β : Type*} {f : β → Option α} {g : α → β} {l : List α}
    (h : ∀ x ∈ l, f (g x) = some x) : (l.map g).mapM f = some l := by
  induction l with
  | nil => rfl
  | cons x l ih =>
    have hx := h x (by simp)
    have hl := ih fun y hy => h y (by simp [hy])
    simp [hx, hl]

theorem parseIPv4Fields_string4 (b : BitVec 32) :
    parseIPv4Fields (string4 b) = some (octets b) := by
  have hs : split (string4 b) '.' = (octets b).map formatUint := by
    apply List.splitOn_intercalate
    · intro f hf
      obtain ⟨x, -, rfl⟩ := List.mem_map.mp hf
      exact fun hc => (formatUint_no_sep hc).2.1 rfl
    · simp [octets]
  have hm : ((octets b).map formatUint).mapM parseOctet = some (octets b) :=
    mapM_map_eq_some fun x hx => parseOctet_formatUint (lt_of_mem_octets hx)
  rw [parseIPv4Fields, hs, hm]
  simp [octets]

/-- A run of zeros found by `zeroRun` can be cut out and filled in again. -/
def ZeroSpan (gs : List ℕ) (r : ℕ × ℕ) : Prop :=
  r = (255, 255) ∨ (r.1 < 8 ∧ r.1 + 2 ≤ r.2 ∧ r.2 ≤ gs.length ∧
    gs = gs.take r.1 ++ List.replicate (r.2 - r.1) 0 ++ gs.drop r.2)

theorem takeWhile_eq_replicate (l : List ℕ) :
    l.takeWhile (· = 0) = List.replicate (l.takeWhile (· = 0)).length 0 :=
  List.eq_replicate_length.mpr fun x hx => by simpa using List.mem_takeWhile_imp hx

theorem zeroSpan_zeroRun (gs : List ℕ) : ZeroSpan gs (zeroRun gs) := by
  unfold zeroRun
  apply List.foldlRecOn
  · exact Or.inl rfl
  · intro r hr i hi
    have hi8 := List.mem_range.mp hi
    dsimp only
    split_ifs with hl
    · right
      have hsplit : (gs.drop i).takeWhile (· = 0) ++ (gs.drop i).dropWhile (· = 0) = gs.drop i :=
        List.takeWhile_append_dropWhile
      have hlen := congrArg List.length hsplit
      have hdrop : (gs.drop i).dropWhile (· = 0) =
          gs.drop (i + ((gs.drop i).takeWhile (· = 0)).length) := by
        rw [← List.drop_drop]
        have := congrArg (List.drop ((gs.drop i).takeWhile (· = 0)).length) hsplit
        rwa [List.drop_left] at this
      simp only [List.length_append, List.length_drop] at hlen
      refine ⟨hi8, by simp only; omega, by simp only; omega, ?_⟩
      rw [Nat.add_sub_cancel_left, ← takeWhile_eq_replicate, ← hdrop, List.append_assoc, hsplit,
        List.take_append_drop]
    · exact hr

theorem cutEllipsis_cons {c : Char} (hc : c ≠ ':') (s : Str) :
    cutEllipsis (c :: s) = (cutEllipsis s).map fun p => (c :: p.1, p.2) := by
  cases s <;> simp [cutEllipsis, hc]

theorem cutEllipsis_colon {s : Str} (hs : s.head? ≠ some ':') :
    cutEllipsis (':' :: s) = (cutEllipsis s).map fun p => (':' :: p.1, p.2) := by
  cases s with
  | nil => rfl
  | cons d s =>
    have hd : d ≠ ':' := by simpa using hs
    simp [cutEllipsis, hd]

theorem cutEllipsis_append {f : Str} (hf : ':' ∉ f) (t : Str) :
    cutEllipsis (f ++ t) = (cutEllipsis t).map fun p => (f ++ p.1, p.2) := by
  induction f with
  | nil => simp
  | cons c f ih =>
    simp only [List.mem_cons, not_or] at hf
    rw [List.cons_append, cutEllipsis_cons (Ne.symm hf.1), ih hf.2, Option.map_map]
    rfl

theorem head?_join_append {f : Str} {fs : List Str} (hf : f ≠ []) (t : Str) :
    (join (f :: fs) ':' ++ t).head? = f.head? := by
  cases f with
  | nil => exact absurd rfl hf
  | cons c f => cases fs <;> simp [join, List.intercalate_cons_cons]

theorem cutEllipsis_join_append {fs : List Str} (hf : ∀ f ∈ fs, f ≠ [] ∧ ':' ∉ f) (t : Str) :
    cutEllipsis (join fs ':' ++ t) = (cutEllipsis t).map fun p => (join fs ':' ++ p.1, p.2) := by
  induction fs with
  | nil => simp [join]
  | cons f fs ih =>
    have hhd := hf f (by simp)
    cases fs with
    | nil => simpa [join] using cutEllipsis_append hhd.2 t
    | cons g fs =>
      have hg := hf g (by simp)
      have ih' := ih fun x hx => hf x (by simp [hx])
      have hne : (join (g :: fs) ':' ++ t).head? ≠ some ':' := by
        rw [head?_join_append hg.1]
        exact fun h => hg.2 (List.mem_of_mem_head? h)
      have hj : join (f :: g :: fs) ':' ++ t = f ++ ':' :: (join (g :: fs) ':' ++ t) := by
        simp [join, List.intercalate_cons_cons]
      rw [hj, cutEllipsis_append hhd.2, cutEllipsis_colon hne, ih', Option.map_map, Option.map_map]
      simp [Function.comp_def, join, List.intercalate_cons_cons]

theorem hex_fields {gs : List ℕ} (h : ∀ g ∈ gs, g < 65536) :
    ∀ f ∈ gs.map appendHex, f ≠ [] ∧ ':' ∉ f := by
  intro f hf
  obtain ⟨x, hx, rfl⟩ := List.mem_map.mp hf
  exact ⟨appendHex_ne_nil x, fun hc => (appendHex_no_sep (h x hx) hc).1 rfl⟩

theorem split_join_hex {gs : List ℕ} (h : ∀ g ∈ gs, g < 65536) (hne : gs ≠ []) :
    split (join (gs.map appendHex) ':') ':' = gs.map appendHex :=
  List.splitOn_intercalate ':' (fun f hf => (hex_fields h f hf).2) (by simpa using hne)

theorem mapM_hex {gs : List ℕ} (h : ∀ g ∈ gs, g < 65536) :
    (gs.map appendHex).mapM parseHexField = some gs :=
  mapM_map_eq_some fun x hx => parseHexField_appendHex (h x hx)

theorem parseGroups_hex {gs : List ℕ} (h : ∀ g ∈ gs, g < 65536) :
    parseGroups (gs.map appendHex) = some gs := by
  induction gs with
  | nil => rfl
  | cons x gs ih =>
    have hx := h x (by simp)
    have hp := parseHexField_appendHex hx
    have hgs := ih fun y hy => h y (by simp [hy])
    cases gs with
    | nil =>
      have hdot : '.' ∉ appendHex x := fun hc => (appendHex_no_sep hx hc).2.1 rfl
      simp [parseGroups, hdot, hp]
    | cons y gs => simpa [parseGroups, hp] using hgs

theorem join_hex_eq_nil {gs : List ℕ} : join (gs.map appendHex) ':' = [] ↔ gs = [] := by
  cases gs with
  | nil => simp [join]
  | cons x gs => cases gs <;> simp [join, List.intercalate_cons_cons, appendHex_ne_nil]

theorem parseIPv6Groups_ellipsis {gl gr : List ℕ} {rt : Str} (hl : ∀ g ∈ gl, g < 65536)
    (hr : (if rt = [] then some [] else parseGroups (split rt ':')) = some gr)
    (hlen : gl.length + gr.length ≤ 7) :
    parseIPv6Groups (join (gl.map appendHex) ':' ++ ':' :: ':' :: rt) =
      some (gl ++ List.replicate (8 - (gl.length + gr.length)) 0 ++ gr) := by
  have hcut : cutEllipsis (join (gl.map appendHex) ':' ++ ':' :: ':' :: rt) =
      some (join (gl.map appendHex) ':', rt) := by
    rw [cutEllipsis_join_append (hex_fields hl)]
    simp [cutEllipsis]
  have hleft : (if join (gl.map appendHex) ':' = [] then some [] else
      (split (join (gl.map appendHex) ':') ':').mapM parseHexField) = some gl := by
    split_ifs with hn
    · rw [join_hex_eq_nil.mp hn]
    · rw [split_join_hex hl (fun h => hn (join_hex_eq_nil.mpr h)), mapM_hex hl]
  simp only [parseIPv6Groups, hcut, hleft, hr, Option.bind_some, if_pos hlen]

theorem parseIPv6Groups_string6 (b : BitVec 128) :
    parseIPv6Groups (string6 b) = some (groups b) := by
  have hall : ∀ g ∈ groups b, g < 65536 := fun g => lt_of_mem_groups
  have hlen : (groups b).length = 8 := by simp [groups]
  rcases hz : zeroRun (groups b) with ⟨i, j⟩
  rcases zeroSpan_zeroRun (groups b) with hr | ⟨h8, hle, hend, hspan⟩
  · have hs : string6 b = join ((groups b).map appendHex) ':' := by simp [string6, hr]
    have hcut := cutEllipsis_join_append (hex_fields hall) []
    rw [List.append_nil] at hcut
    rw [parseIPv6Groups, hs, hcut, split_join_hex hall (by simp [groups])]
    simp [cutEllipsis, parseGroups_hex hall, hlen]
  · simp only [hz] at h8 hle hend hspan
    have hs : string6 b = join (((groups b).take i).map appendHex) ':' ++
        ':' :: ':' :: join (((groups b).drop j).map appendHex) ':' := by
      simp [string6, hz, show i ≠ 255 by omega]
    have hr : ∀ g ∈ (groups b).drop j, g < 65536 := fun g hg => hall g (List.mem_of_mem_drop hg)
    have hright : (if join (((groups b).drop j).map appendHex) ':' = [] then some [] else
        parseGroups (split (join (((groups b).drop j).map appendHex) ':') ':')) =
          some ((groups b).drop j) := by
      split_ifs with hn
      · rw [join_hex_eq_nil.mp hn]
      · rw [split_join_hex hr (fun h => hn (join_hex_eq_nil.mpr h)), parseGroups_hex hr]
    have hcount : ((groups b).take i).length + ((groups b).drop j).length = i + (8 - j) := by
      simp only [List.length_take, List.length_drop, hlen]
      omega
    rw [hs, parseIPv6Groups_ellipsis (fun g hg => hall g (List.mem_of_mem_take hg)) hright
      (by omega), hcount, show 8 - (i + (8 - j)) = j - i by omega]
    exact congrArg some hspan.symm

theorem mem_join {fs : List Str} {sep c : Char} (h : c ∈ join fs sep) :
    c = sep ∨ ∃ f ∈ fs, c ∈ f := by
  induction fs with
  | nil => simp [join] at h
  | cons f fs ih =>
    cases fs with
    | nil => exact Or.inr ⟨f, by simp, by simpa [join] using h⟩
    | cons g fs =>
      simp only [join, List.intercalate_cons_cons, List.mem_append, List.mem_singleton] at h
      rcases h with (h | h) | h
      · exact Or.inr ⟨f, by simp, h⟩
      · exact Or.inl h
      · rcases ih h with hc | ⟨x, hx, hc⟩
        · exact Or.inl hc
        · exact Or.inr ⟨x, by simp [hx], hc⟩

theorem mem_join_hex {gs : List ℕ} (hg : ∀ g ∈ gs, g < 65536) {c : Char}
    (h : c ∈ join (gs.map appendHex) ':') : c ≠ '.' ∧ c ≠ '%' ∧ isSpace c = false ∧ c ≠ ',' := by
  rcases mem_join h with rfl | ⟨f, hf, hc⟩
  · decide
  · obtain ⟨x, hx, rfl⟩ := List.mem_map.mp hf
    exact (appendHex_no_sep (hg x hx) hc).2

theorem mem_string6 {b : BitVec 128} {c : Char} (h : c ∈ string6 b) :
    c ≠ '.' ∧ c ≠ '%' ∧ isSpace c = false ∧ c ≠ ',' := by
  have hall : ∀ g ∈ groups b, g < 65536 := fun g => lt_of_mem_groups
  unfold string6 at h
  dsimp only at h
  split_ifs at h
  · exact mem_join_hex hall h
  · simp only [List.mem_append, List.mem_cons, List.not_mem_nil, or_false, or_self] at h
    rcases h with (h | rfl) | h
    · exact mem_join_hex (fun g hg => hall g (List.mem_of_mem_take hg)) h
    · decide
    · exact mem_join_hex (fun g hg => hall g (List.mem_of_mem_drop hg)) h

theorem mem_string4 {b : BitVec 32} {c : Char} (h : c ∈ string4 b) :
    c ≠ ':' ∧ c ≠ '%' ∧ isSpace c = false ∧ c ≠ ',' := by
  rcases mem_join h with rfl | ⟨f, hf, hc⟩
  · decide
  · obtain ⟨x, -, rfl⟩ := List.mem_map.mp hf
    have := formatUint_no_sep hc
    exact ⟨this.1, this.2.2⟩

theorem find?_eq_some_of_only {s : Str} {p : Char → Bool} {c : Char} (hc : c ∈ s) (hp : p c)
    (honly : ∀ d ∈ s, p d → d = c) : s.find? p = some c := by
  obtain ⟨d, hd⟩ := Option.isSome_iff_exists.mp (List.find?_isSome.mpr ⟨c, hc, hp⟩)
  rw [hd, honly d (List.mem_of_find?_eq_some hd) (List.find?_some hd)]

theorem colon_mem_string6 (b : BitVec 128) : ':' ∈ string6 b := by
  unfold string6
  dsimp only
  split_ifs
  · simp [groups, List.range, List.range.loop, join, List.intercalate_cons_cons]
  · simp

theorem parseIPv6_withZone {body zone : Str} {gs : List ℕ} (hb : '%' ∉ body)
    (hp : parseIPv6Groups body = some gs) :
    parseIPv6 (withZone body zone) = some (.v6 (ofGroups gs) zone) := by
  have htake : body.takeWhile (· ≠ '%') = body := List.takeWhile_eq_self_iff.mpr fun c hc => by
    simpa using fun h : c = '%' => hb (h ▸ hc)
  have hdrop : body.dropWhile (· ≠ '%') = [] := List.dropWhile_eq_nil_iff.mpr fun c hc => by
    simpa using fun h : c = '%' => hb (h ▸ hc)
  unfold withZone
  split_ifs with hz
  · simp only [parseIPv6, htake, hdrop, List.tail_nil, hb, false_and, if_false, hp, hz,
      Option.map_some]
  · have htake' : (body ++ '%' :: zone).takeWhile (· ≠ '%') = body := by
      rw [List.takeWhile_append, htake]
      simp
    have hdrop' : (body ++ '%' :: zone).dropWhile (· ≠ '%') = '%' :: zone := by
      rw [List.dropWhile_append, hdrop]
      simp
    simp only [parseIPv6, htake', hdrop', List.tail_cons, hz, and_false, if_false, hp,
      Option.map_some]

theorem parseAddr_withZone {body zone : Str} {gs : List ℕ} (hb : '%' ∉ body)
    (hp : parseIPv6Groups body = some gs)
    (hf : body.find? (fun c => c = '.' || c = ':' || c = '%') = some ':') :
    parseAddr (withZone body zone) = some (.v6 (ofGroups gs) zone) := by
  have hf' : (withZone body zone).find? (fun c => c = '.' || c = ':' || c = '%') = some ':' := by
    unfold withZone
    split_ifs
    · exact hf
    · rw [List.find?_append, hf, Option.some_or]
  rw [parseAddr, hf']
  exact parseIPv6_withZone hb hp

theorem parseAddr_string4 (b : BitVec 32) : parseAddr (string4 b) = some (.v4 b) := by
  have hf : (string4 b).find? (fun c => c = '.' || c = ':' || c = '%') = some '.' := by
    refine find?_eq_some_of_only ?_ (by decide) fun d hd hp => ?_
    · simp [string4, octets, List.range, List.range.loop, join, List.intercalate_cons_cons]
    · have := mem_string4 hd
      simp_all
  rw [parseAddr, hf]
  simp [parseIPv4Fields_string4, ofOctets_octets]

theorem groups_of_is4In6 {b : BitVec 128} (h : b.toNat / 2 ^ 32 = 0xffff) :
    ofGroups ([0, 0, 0, 0, 0, 0xffff] ++
      [octet (b.setWidth 32) 0 * 256 + octet (b.setWidth 32) 1,
        octet (b.setWidth 32) 2 * 256 + octet (b.setWidth 32) 3]) = b := by
  apply BitVec.eq_of_toNat_eq
  have hlow := foldl_octets (b.setWidth 32)
  rw [BitVec.toNat_setWidth] at hlow
  simp only [octets, List.range, List.range.loop, List.map, List.foldl] at hlow
  simp only [ofGroups, BitVec.toNat_ofNat, List.cons_append, List.nil_append, List.foldl]
  omega

theorem parseIPv6Groups_mapped (b : BitVec 32) :
    parseIPv6Groups ("::ffff:".toList ++ string4 b) = some ([0, 0, 0, 0, 0, 0xffff] ++
      [octet b 0 * 256 + octet b 1, octet b 2 * 256 + octet b 3]) := by
  have hdot : '.' ∈ string4 b := by
    simp [string4, octets, List.range, List.range.loop, join, List.intercalate_cons_cons]
  have hsplit : split ("ffff:".toList ++ string4 b) ':' = ["ffff".toList, string4 b] := by
    rw [show "ffff:".toList ++ string4 b = "ffff".toList ++ ':' :: string4 b from rfl,
      split_append, split_of_not_mem (by decide),
      split_of_not_mem (fun h => (mem_string4 h).1 rfl), List.singleton_append]
  have hright : (if "ffff:".toList ++ string4 b = [] then some [] else
      parseGroups (split ("ffff:".toList ++ string4 b) ':')) = some [0xffff,
        octet b 0 * 256 + octet b 1, octet b 2 * 256 + octet b 3] := by
    have hhex : parseHexField "ffff".toList = some 0xffff := by decide
    rw [if_neg (List.append_ne_nil_of_left_ne_nil (by decide) _), hsplit]
    simp only [parseGroups, hhex, hdot, if_true, parseIPv4Fields_string4]
    rfl
  exact @parseIPv6Groups_ellipsis [] _ _ (by simp) hright (by simp)

theorem parseAddr_string {a : Addr} (h : a.isValid) : parseAddr a.string = some a := by
  cases a with
  | invalid => simp [Addr.isValid] at h
  | v4 b => rw [Addr.string_v4, parseAddr_string4]
  | v6 b z =>
    rw [Addr.string_v6]
    split_ifs with hm
    · have hp := parseIPv6Groups_mapped (b.setWidth 32)
      rw [parseAddr_withZone _ hp (by rfl), groups_of_is4In6 (by simpa [Addr.is4In6] using hm)]
      intro hc
      rcases List.mem_append.mp hc with hc | hc
      · exact absurd hc (by decide)
      · exact (mem_string4 hc).2.1 rfl
    · rw [parseAddr_withZone (fun hc => (mem_string6 hc).2.1 rfl) (parseIPv6Groups_string6 b),
        ofGroups_groups]
      refine find?_eq_some_of_only (colon_mem_string6 b) (by decide) fun d hd hp => ?_
      have := mem_string6 hd
      simp_all

theorem Addr.isValid_unmap {a : Addr} (h : a.isValid) : a.unmap.isValid := by
  cases a with
  | invalid => cases h
  | v4 b => rfl
  | v6 b z =>
    simp only [Addr.unmap]
    split_ifs <;> rfl

theorem isValid_of_parseAddr {s : Str} {a : Addr} (h : parseAddr s = some a) : a.isValid := by
  unfold parseAddr at h
  split at h
  · obtain ⟨os, -, rfl⟩ := Option.map_eq_some_iff.mp h
    rfl
  · unfold parseIPv6 at h
    dsimp only at h
    split_ifs at h
    obtain ⟨gs, -, rfl⟩ := Option.map_eq_some_iff.mp h
    rfl
  · cases h

theorem Addr.string_ne_nil (a : Addr) : a.string ≠ [] := by
  cases hv : a.isValid with
  | false =>
    cases a with
    | invalid => decide
    | v4 b => cases hv
    | v6 b z => cases hv
  | true =>
    intro h
    have hp := parseAddr_string hv
    rw [h] at hp
    cases hp

theorem Addr.string_injective {a b : Addr} (ha : a.isValid) (hb : b.isValid)
    (h : a.string = b.string) : a = b := by
  have := parseAddr_string ha
  rw [h, parseAddr_string hb] at this
  exact (Option.some.inj this).symm

theorem Addr.eq_invalid {a : Addr} (ha : ¬ a.isValid = true) : a = .invalid := by
  cases a with
  | invalid => rfl
  | v4 b => exact absurd rfl ha
  | v6 b z => exact absurd rfl ha

theorem Addr.string_invalid_ne {a : Addr} (ha : a.isValid = true) :
    Addr.invalid.string ≠ a.string := by
  intro h
  have hnone : parseAddr Addr.invalid.string = none := by decide
  rw [h, parseAddr_string ha] at hnone
  cases hnone

theorem Addr.eq_of_string_eq {a b : Addr} (h : a.string = b.string) : a = b := by
  by_cases ha : a.isValid = true <;> by_cases hb : b.isValid = true
  · exact Addr.string_injective ha hb h
  · rw [Addr.eq_invalid hb] at h
    exact absurd h.symm (Addr.string_invalid_ne ha)
  · rw [Addr.eq_invalid ha] at h
    exact absurd h (Addr.string_invalid_ne hb)
  · rw [Addr.eq_invalid ha, Addr.eq_invalid hb]

theorem Addr.mem_string {a : Addr} (ha : a.isValid) (hz : a.zone = []) {c : Char}
    (hc : c ∈ a.string) : isSpace c = false ∧ c ≠ ',' := by
  cases a with
  | invalid => simp [Addr.isValid] at ha
  | v4 b => exact (mem_string4 hc).2.2
  | v6 b z =>
    obtain rfl : z = [] := hz
    rw [Addr.string_v6] at hc
    split_ifs at hc
    · rcases List.mem_append.mp hc with hc | hc
      · have hall : ("::ffff:".toList.all fun d => isSpace d = false ∧ d ≠ ',') = true := by decide
        exact of_decide_eq_true (List.all_eq_true.mp hall c hc)
      · exact (mem_string4 hc).2.2
    · exact (mem_string6 hc).2.2

theorem percent_mem_withZone_iff {s zone : Str} (h : '%' ∉ s) :
    '%' ∈ withZone s zone ↔ zone ≠ [] := by
  unfold withZone
  split_ifs with hz
  · exact iff_of_false h (not_not_intro hz)
  · exact iff_of_true (by simp) hz

theorem Addr.percent_mem_string_iff {a : Addr} (ha : a.isValid) : '%' ∈ a.string ↔ a.zone ≠ [] := by
  have h4 : ∀ b : BitVec 32, '%' ∉ string4 b := fun b h => (mem_string4 h).2.1 rfl
  cases a with
  | invalid => simp [Addr.isValid] at ha
  | v4 b => exact iff_of_false (h4 b) (not_not_intro rfl)
  | v6 b z =>
    rw [Addr.string_v6]
    split_ifs
    · refine percent_mem_withZone_iff fun h => ?_
      rcases List.mem_append.mp h with h | h
      · revert h
        decide
      · exact h4 _ h
    · exact percent_mem_withZone_iff fun h => (mem_string6 h).2.1 rfl

example : parseAddr "2001:DB8::1".toList = some (.v6 0x20010db8000000000000000000000001 []) := by
  decide

example : parseAddrPort "[2001:db8::1]:53".toList =
    some (.v6 0x20010db8000000000000000000000001 [], 53) := by
  decide

end Go.Netip
