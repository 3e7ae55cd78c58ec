import SplitDNS.Go.NetipText

/-! # Prefixes

Go's `netip.Prefix`: which values are valid, the masked form and the text. Two
numbers agree in their leading digits exactly if they agree after division, so
that membership in a prefix can be read off the digits of any base whose width
divides the length of the prefix.
-/

namespace Go.Netip

open Go.Strings

deriving instance DecidableEq for Prefix

def Addr.isLinkLocalMulticast (a : Addr) : Bool :=
  match a.unmap with
  | v4 b => octet b 0 = 224 && octet b 1 = 0 && octet b 2 = 0
  | v6 b _ => group b 0 / 256 = 0xff && group b 0 % 16 = 2
  | invalid => false

theorem Addr.is4In6_unmap (a : Addr) : a.unmap.is4In6 = false := by
  cases a with
  | invalid => rfl
  | v4 b => rfl
  | v6 b z =>
    by_cases h : (Addr.v6 b z).is4In6 = true
    · rw [Addr.unmap, if_pos h]
      rfl
    · rw [Addr.unmap, if_neg h]
      exact Bool.eq_false_of_not_eq_true h

namespace Prefix

def isValid (p : Prefix) : Bool :=
  match p.addr with
  | .v4 _ => p.bits ≤ 32
  | .v6 _ z => z = [] && p.bits ≤ 128
  | .invalid => false

def zero : Prefix := ⟨.invalid, 0⟩

def clear {w : ℕ} (b : BitVec w) (last : ℕ) : BitVec w :=
  BitVec.ofNat w (b.toNat / 2 ^ last * 2 ^ last)

/-- `Prefix.Masked`: the bits after the prefix cleared, the zero value for an invalid prefix. -/
def masked (p : Prefix) : Prefix :=
  match p.addr with
  | .v4 b => if p.bits ≤ 32 then ⟨.v4 (clear b (32 - p.bits)), p.bits⟩ else zero
  | .v6 b _ => if p.bits ≤ 128 then ⟨.v6 (clear b (128 - p.bits)) [], p.bits⟩ else zero
  | .invalid => zero

def string (p : Prefix) : Str :=
  if p.isValid then p.addr.string ++ '/' :: formatUint p.bits else "invalid Prefix".toList

/-- `netip.PrefixFrom`: without the zone, invalid with more bits than the address has. -/
def of (a : Addr) (bits : ℕ) : Prefix :=
  match a with
  | .v4 b => if bits ≤ 32 then ⟨.v4 b, bits⟩ else zero
  | .v6 b _ => if bits ≤ 128 then ⟨.v6 b [], bits⟩ else zero
  | .invalid => zero

def cutSlash (s : Str) : Option (Str × Str) :=
  match s.reverse.dropWhile (· ≠ '/') with
  | [] => none
  | _ :: front => some (front.reverse, (s.reverse.takeWhile (· ≠ '/')).reverse)

/-- The length of a prefix, in decimal without leading zeros. -/
def parseBits (s : Str) : Option ℕ :=
  if 1 < s.length ∧ ¬ ('1' ≤ s.headD '0' ∧ s.headD '0' ≤ '9') then none else parseUint s 63

/-- `netip.ParsePrefix`. -/
def parse (s : Str) : Option Prefix :=
  (cutSlash s).bind fun (addr, bits) =>
    ((parseAddr addr).filter (·.zone = [])).bind fun a =>
      ((parseBits bits).filter (· ≤ if a.is4 then 32 else 128)).map (of a)

example : parse "10.0.0.0/8".toList = some ⟨.v4 0x0a000000, 8⟩ := by decide

variable {p : Prefix} {w : ℕ}

theorem isValid_of (a : Addr) (ha : a.isValid = true) {n : ℕ}
    (hn : n ≤ if a.is4 then 32 else 128) : (of a n).isValid = true := by
  cases a with
  | invalid => cases ha
  | v4 b =>
    have hn : n ≤ 32 := by simpa [Addr.is4] using hn
    simp [of, isValid, hn]
  | v6 b z =>
    have hn : n ≤ 128 := by simpa [Addr.is4] using hn
    simp [of, isValid, hn]

theorem isValid_of_parse {s : Str} (h : parse s = some p) : p.isValid = true := by
  obtain ⟨⟨addr, bits⟩, -, h⟩ := Option.bind_eq_some_iff.mp h
  obtain ⟨a, ha, h⟩ := Option.bind_eq_some_iff.mp h
  obtain ⟨n, hn, rfl⟩ := Option.map_eq_some_iff.mp h
  have ha := (Option.filter_eq_some_iff.mp ha).1
  have hn := (Option.filter_eq_some_iff.mp hn).2
  exact isValid_of a (isValid_of_parseAddr ha) (of_decide_eq_true hn)

theorem toNat_clear (b : BitVec w) (last : ℕ) :
    (clear b last).toNat = b.toNat / 2 ^ last * 2 ^ last := by
  rw [clear, BitVec.toNat_ofNat]
  exact Nat.mod_eq_of_lt ((Nat.div_mul_le_self _ _).trans_lt b.isLt)

theorem toNat_clear_div (b : BitVec w) (last : ℕ) :
    (clear b last).toNat / 2 ^ last = b.toNat / 2 ^ last := by
  rw [toNat_clear]
  exact Nat.mul_div_cancel _ (Nat.two_pow_pos last)

theorem clear_clear (b : BitVec w) (last : ℕ) : clear (clear b last) last = clear b last := by
  apply BitVec.eq_of_toNat_eq
  rw [toNat_clear, toNat_clear_div, toNat_clear]

theorem contains_masked (h : p.isValid = true) (a : Addr) :
    p.masked.contains a = p.contains a := by
  obtain ⟨addr, bits⟩ := p
  cases addr with
  | invalid => cases h
  | v4 b =>
    have hbits : bits ≤ 32 := by simpa [isValid] using h
    rw [masked]
    dsimp only
    rw [if_pos hbits]
    cases a <;> simp [contains, toNat_clear_div]
  | v6 b z =>
    have hbits : bits ≤ 128 := by simpa [isValid] using (Bool.and_eq_true_iff.mp h).2
    rw [masked]
    dsimp only
    rw [if_pos hbits]
    cases a <;> simp [contains, toNat_clear_div]

theorem masked_masked (p : Prefix) : p.masked.masked = p.masked := by
  obtain ⟨addr, bits⟩ := p
  cases addr with
  | invalid => rfl
  | v4 b => by_cases h : bits ≤ 32 <;> simp [masked, h, clear_clear, zero]
  | v6 b z => by_cases h : bits ≤ 128 <;> simp [masked, h, clear_clear, zero]

end Prefix

/-- The digits of a number below a power of the base, from the left. -/
def digits (base k x : ℕ) : List ℕ := (List.range k).map fun i => x / base ^ (k - 1 - i) % base

theorem length_digits (base k x : ℕ) : (digits base k x).length = k := by simp [digits]

theorem lt_of_mem_digits {base k x d : ℕ} (hbase : 0 < base) (h : d ∈ digits base k x) :
    d < base := by
  obtain ⟨i, -, rfl⟩ := List.mem_map.mp h
  exact Nat.mod_lt _ hbase

theorem take_digits {base k j : ℕ} (hj : j ≤ k) (x : ℕ) :
    (digits base k x).take j = (List.range j).map fun i => x / base ^ (k - 1 - i) % base := by
  rw [digits, ← List.map_take, List.take_range, min_eq_left hj]

theorem take_digits_eq_iff {base k j x y : ℕ} (hx : x < base ^ k) (hy : y < base ^ k)
    (hj : j ≤ k) :
    (digits base k x).take j = (digits base k y).take j ↔
      x / base ^ (k - j) = y / base ^ (k - j) := by
  rw [take_digits hj, take_digits hj]
  constructor
  · intro h
    rw [← foldl_digits hx hj, ← foldl_digits hy hj, h]
  · intro h
    refine List.map_congr_left fun i hi => ?_
    have hsplit : base ^ (k - 1 - i) = base ^ (k - j) * base ^ (j - 1 - i) := by
      have hi := List.mem_range.mp hi
      rw [← pow_add]
      congr 1
      omega
    rw [hsplit, ← Nat.div_div_eq_div_mul, ← Nat.div_div_eq_div_mul, h]

end Go.Netip
