import SplitDNS.Dns.Reverse
import SplitDNS.Dns.Rooted
import SplitDNS.Go.Prefixes

/-! # Reverse names as reversed digits

The reverse name of an address is the list of its digits, the last first, under
one of the two suffixes. A name made of the leading digits of one address is at
or above the reverse name of another exactly if the two share those digits.
-/

namespace Dns

open Go Go.Netip Go.Strings

def inAddrArpa : List Str := ["in-addr".toList, "arpa".toList]

def ip6Arpa : List Str := ["ip6".toList, "arpa".toList]

/-- The digits as labels, the last first, under a suffix. -/
def reversed (text : ℕ → Str) (ds : List ℕ) (under : List Str) : Str :=
  rooted (ds.reverse.map text ++ under)

def hexDigit (d : ℕ) : Str := [Nat.digitChar d]

/-- The texts of the digits are labels and can be read back. -/
structure Reads (text : ℕ → Str) (base : ℕ) (read : Str → Option ℕ) : Prop where
  read_text : ∀ d < base, read (text d) = some d
  no_dot : ∀ d < base, '.' ∉ text d

theorem reads_decimal : Reads formatUint 256 parseOctet where
  read_text _ h := parseOctet_formatUint h
  no_dot _ _ hc := (formatUint_no_sep hc).2.1 rfl

theorem reads_hexDigit : Reads hexDigit 16 fun s => s.head?.bind hexVal where
  read_text _ h := hexVal_digitChar h
  no_dot d h hc := by
    have hne := digitChar_ne_sep h
    rw [hexDigit, List.mem_singleton] at hc
    rw [← hc] at hne
    simp at hne

section Reversed

variable {text : ℕ → Str} {base : ℕ} {read : Str → Option ℕ} {ds es : List ℕ}
  {under under' : List Str}

theorem Reads.map_inj (h : Reads text base read) (hds : ∀ d ∈ ds, d < base)
    (hes : ∀ e ∈ es, e < base) : ds.map text = es.map text ↔ ds = es := by
  refine ⟨fun heq => ?_, congrArg _⟩
  have hread := mapM_map_eq_some fun d hd => h.read_text d (hds d hd)
  rw [heq, mapM_map_eq_some fun e he => h.read_text e (hes e he)] at hread
  exact (Option.some.inj hread).symm

theorem Reads.no_dot_of_mem (h : Reads text base read) (hds : ∀ d ∈ ds, d < base)
    (hunder : ∀ l ∈ under, '.' ∉ l) : ∀ l ∈ ds.reverse.map text ++ under, '.' ∉ l := by
  intro l hl
  rcases List.mem_append.mp hl with hl | hl
  · obtain ⟨d, hd, rfl⟩ := List.mem_map.mp hl
    exact h.no_dot d (hds d (List.mem_reverse.mp hd))
  · exact hunder l hl

theorem Reads.atOrBelow_reversed (h : Reads text base read) (hds : ∀ d ∈ ds, d < base)
    (hes : ∀ e ∈ es, e < base) (hlen : ds.length = es.length) (hunder : ∀ l ∈ under, '.' ∉ l)
    (n : ℕ) :
    AtOrBelow (reversed text es under) (reversed text (ds.take n) under) ↔
      ds.take n = es.take n := by
  have htake : ∀ d ∈ ds.take n, d < base := fun d hd => hds d (List.mem_of_mem_take hd)
  have htake' : ∀ e ∈ es.take n, e < base := fun e he => hes e (List.mem_of_mem_take he)
  rw [reversed, reversed, atOrBelow_rooted (h.no_dot_of_mem hes hunder)
    (h.no_dot_of_mem htake hunder), List.suffix_append_self_iff, List.map_reverse, List.map_reverse,
    List.reverse_suffix, List.prefix_iff_eq_take, ← List.map_take, List.length_map,
    List.length_take, hlen]
  have hmin : es.take (min n es.length) = es.take n := by
    rw [← List.take_take, List.take_length]
  rw [hmin, h.map_inj htake htake']

theorem Reads.atOrBelow_clear_iff (h : Reads text base read) {w k size n : ℕ} (hbase : base = 2 ^ w)
    (hsize : size = w * k) (hn : n ≤ k) (hunder : ∀ l ∈ under, '.' ∉ l) (b c : BitVec size) :
    AtOrBelow (reversed text (digits base k c.toNat) under)
        (reversed text ((digits base k (Prefix.clear b (size - w * n)).toNat).take n) under) ↔
      b.toNat / 2 ^ (size - w * n) = c.toNat / 2 ^ (size - w * n) := by
  have hpos : 0 < base := hbase ▸ Nat.two_pow_pos w
  have hlt : ∀ x : BitVec size, x.toNat < base ^ k := fun x => by
    rw [hbase, ← pow_mul, ← hsize]
    exact x.isLt
  have hpow : base ^ (k - n) = 2 ^ (size - w * n) := by
    rw [hbase, ← pow_mul, Nat.mul_sub, hsize]
  rw [h.atOrBelow_reversed (fun _ => lt_of_mem_digits hpos) (fun _ => lt_of_mem_digits hpos)
    (by simp [length_digits]) hunder, take_digits_eq_iff (hlt _) (hlt _) hn, hpow,
    Prefix.toNat_clear_div]

theorem Reads.not_atOrBelow_reversed {text' : ℕ → Str} {base' : ℕ} {read' : Str → Option ℕ}
    (h : Reads text base read) (h' : Reads text' base' read') (hds : ∀ d ∈ ds, d < base)
    (hes : ∀ e ∈ es, e < base') (hunder : ∀ l ∈ under, '.' ∉ l) (hunder' : ∀ l ∈ under', '.' ∉ l)
    (hlen : under.length = under'.length) (hne : under ≠ under') :
    ¬ AtOrBelow (reversed text' es under') (reversed text ds under) := by
  rw [reversed, reversed, atOrBelow_rooted (h'.no_dot_of_mem hes hunder')
    (h.no_dot_of_mem hds hunder)]
  intro hsuffix
  refine hne (List.IsSuffix.eq_of_length ?_ hlen)
  exact List.suffix_of_suffix_length_le ((List.suffix_append _ _).trans hsuffix)
    (List.suffix_append _ _) hlen.le

end Reversed

section Addresses

theorem reverseAddr_v4 (b : BitVec 32) :
    reverseAddr (Addr.v4 b).string =
      some (reversed formatUint (digits 256 4 b.toNat) inAddrArpa) := by
  rw [reverseAddr, parseAddr_string rfl, reversed, ← join_append_dot (by simp [inAddrArpa])]
  simp [Addr.zone, Addr.unmap, Option.filter, digits, inAddrArpa, List.range, List.range.loop,
    octet, join]

theorem reverseAddr_v6 {b : BitVec 128} (h : (Addr.v6 b []).is4In6 = false) :
    reverseAddr (Addr.v6 b []).string =
      some (reversed hexDigit (digits 16 32 b.toNat) ip6Arpa) := by
  rw [reverseAddr, parseAddr_string rfl, reversed, ← join_append_dot (by simp [ip6Arpa])]
  simp [Addr.zone, Addr.unmap, h, Option.filter, digits, ip6Arpa, List.range, List.range.loop,
    nibble, hexDigit, join]

theorem reverseAddr_zone {b : BitVec 128} {z : Str} (h : z ≠ []) :
    reverseAddr (Addr.v6 b z).string = none := by
  rw [reverseAddr, parseAddr_string rfl]
  simp [Option.filter, Addr.zone, h]

theorem reverseAddr_invalid : reverseAddr Addr.invalid.string = none := by decide

theorem reverseAddr_unmap {a : Addr} {name : Str} (h : reverseAddr a.string = some name) :
    reverseAddr a.unmap.string = some name := by
  cases a with
  | invalid => exact h
  | v4 b => exact h
  | v6 b z =>
    rcases eq_or_ne z [] with rfl | hz
    · by_cases hm : (Addr.v6 b []).is4In6 = true
      · rw [reverseAddr, parseAddr_string rfl] at h
        rw [Addr.unmap, if_pos hm, reverseAddr, parseAddr_string rfl]
        simpa [Option.filter, Addr.zone, Addr.unmap, hm] using h
      · rw [Addr.unmap, if_neg hm]
        exact h
    · rw [reverseAddr_zone hz] at h
      cases h

end Addresses

end Dns
