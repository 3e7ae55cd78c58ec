import Mathlib.Data.Char
import Mathlib.Data.List.Lex
import SplitDNS.Dns.ReverseNames
import SplitDNS.Orders.FirstDifference

/-! # The order of reverse names

The console lists reverse names by their labels from the last one on, numbers by
value and other labels as text. The two ways of comparing labels do not always
agree, and only sets of names without such a clash are ordered.
-/

namespace SplitDNS.Diag

open Go Go.Strings Dns Orders

def atoi : Str → Option ℤ
  | '-' :: digits => ((parseUint digits 64).filter (· ≤ 2 ^ 63)).map fun n => -(n : ℤ)
  | '+' :: digits => ((parseUint digits 64).filter (· < 2 ^ 63)).map fun n => (n : ℤ)
  | digits => ((parseUint digits 64).filter (· < 2 ^ 63)).map fun n => (n : ℤ)

def reverseLabels (name : Str) : List Str := (split (trimSuffix name ['.']) '.').reverse

def labelLess (x y : Str) : Bool :=
  match atoi x, atoi y with
  | some m, some n => m < n
  | _, _ => x < y

def lessReverseDNS (a b : Str) : Bool := lessBy labelLess (reverseLabels a) (reverseLabels b)

def SameNumber (x y : Str) : Prop := x ≠ y ∧ ∃ n, atoi x = some n ∧ atoi y = some n

/-- A label that is not a number stands, as text, between two numbers that are the other way round
by value. -/
def Interleaved (u v w : Str) : Prop :=
  ∃ m n, atoi u = some m ∧ atoi v = some n ∧ atoi w = none ∧ n ≤ m ∧ u < w ∧ w < v

/-- Equal lists of labels, or lists that first differ in two spellings of one number. -/
def SameAddress (s t : List Str) : Prop :=
  s = t ∨ ∃ p x y s' t', s = p ++ x :: s' ∧ t = p ++ y :: t' ∧ SameNumber x y

/-- Three names that cannot be put in order: below a common part they have two numbers and a label
interleaved with them, or one number in two spellings with a difference behind one of them. -/
def Clash (a b c : Str) : Prop :=
  (∃ p u v w s t r, reverseLabels a = p ++ u :: s ∧ reverseLabels b = p ++ v :: t ∧
    reverseLabels c = p ++ w :: r ∧ Interleaved u v w) ∨
  ∃ p x y s t r, reverseLabels a = p ++ x :: s ∧ reverseLabels b = p ++ y :: t ∧
    reverseLabels c = p ++ x :: r ∧ SameNumber x y ∧ ¬ SameAddress s r

section Labels

variable {x y z u v w : Str} {m n : ℤ}

theorem labelLess_of_numbers (hx : atoi x = some m) (hy : atoi y = some n) :
    labelLess x y = decide (m < n) := by
  simp only [labelLess, hx, hy]

theorem labelLess_of_text (h : atoi x = none ∨ atoi y = none) :
    labelLess x y = decide (x < y) := by
  rcases h with hx | hy
  · simp only [labelLess, hx]
  · rcases hx : atoi x with _ | m <;> simp only [labelLess, hx, hy]

theorem numbers_or_text (x y : Str) :
    (∃ m n, atoi x = some m ∧ atoi y = some n) ∨ atoi x = none ∨ atoi y = none := by
  rcases hx : atoi x with _ | m
  · exact Or.inr (Or.inl rfl)
  · rcases hy : atoi y with _ | n
    · exact Or.inr (Or.inr rfl)
    · exact Or.inl ⟨m, n, rfl, rfl⟩

theorem labelLess_asymm (x y : Str) (h : labelLess x y = true) : labelLess y x = false := by
  rcases numbers_or_text x y with ⟨m, n, hx, hy⟩ | htext
  · rw [labelLess_of_numbers hx hy, decide_eq_true_eq] at h
    rw [labelLess_of_numbers hy hx, decide_eq_false (lt_asymm h)]
  · rw [labelLess_of_text htext, decide_eq_true_eq] at h
    rw [labelLess_of_text htext.symm, decide_eq_false (lt_asymm h)]

theorem text_lt_of_not_labelLess (htext : atoi x = none ∨ atoi y = none) (hne : x ≠ y)
    (h : labelLess x y = false) : y < x := by
  rw [labelLess_of_text htext, decide_eq_false_iff_not] at h
  exact lt_of_le_of_ne (not_lt.mp h) hne.symm

theorem sameNumber_iff :
    SameNumber x y ↔ x ≠ y ∧ labelLess x y = false ∧ labelLess y x = false := by
  refine and_congr_right fun hne => ?_
  rcases numbers_or_text x y with ⟨m, n, hx, hy⟩ | htext
  · rw [labelLess_of_numbers hx hy, labelLess_of_numbers hy hx, decide_eq_false_iff_not,
      decide_eq_false_iff_not, hx, hy]
    constructor
    · rintro ⟨k, hk, hk'⟩
      cases hk
      cases hk'
      exact ⟨lt_irrefl m, lt_irrefl m⟩
    · rintro ⟨hmn, hnm⟩
      obtain rfl := le_antisymm (not_lt.mp hnm) (not_lt.mp hmn)
      exact ⟨m, rfl, rfl⟩
  · refine iff_of_false ?_ ?_
    · rintro ⟨k, hx, hy⟩
      rw [hx, hy] at htext
      simp at htext
    · rintro ⟨hxy, hyx⟩
      exact lt_asymm (text_lt_of_not_labelLess htext hne hxy)
        (text_lt_of_not_labelLess htext.symm hne.symm hyx)

theorem Interleaved.labelLess (h : Interleaved u v w) :
    (u ≠ v ∧ v ≠ w ∧ u ≠ w) ∧
      labelLess u w = true ∧ labelLess u v = false ∧ labelLess v w = false := by
  obtain ⟨m, n, hu, hv, hw, hle, huw, hwv⟩ := h
  refine ⟨⟨(huw.trans hwv).ne, hwv.ne', huw.ne⟩, ?_, ?_, ?_⟩
  · rw [labelLess_of_text (Or.inr hw), decide_eq_true huw]
  · rw [labelLess_of_numbers hu hv, decide_eq_false (not_lt.mpr hle)]
  · rw [labelLess_of_text (Or.inr hw), decide_eq_false (lt_asymm hwv)]

theorem interleaved_of_unordered (hxy : x ≠ y) (hyz : y ≠ z) (hac : labelLess x z = true)
    (hab : labelLess x y = false) (hbc : labelLess y z = false) :
    Interleaved x y z ∨ Interleaved z x y ∨ Interleaved y z x := by
  rcases numbers_or_text x y with ⟨m, n, hx, hy⟩ | hxy'
  · rw [labelLess_of_numbers hx hy, decide_eq_false_iff_not, not_lt] at hab
    rcases hz : atoi z with _ | k
    · rw [labelLess_of_text (Or.inr hz), decide_eq_true_eq] at hac
      exact Or.inl ⟨m, n, hx, hy, hz, hab, hac, text_lt_of_not_labelLess (Or.inr hz) hyz hbc⟩
    · rw [labelLess_of_numbers hx hz, decide_eq_true_eq] at hac
      rw [labelLess_of_numbers hy hz, decide_eq_false_iff_not, not_lt] at hbc
      exact absurd hac (not_lt.mpr (hbc.trans hab))
  · have hyx := text_lt_of_not_labelLess hxy' hxy hab
    rcases numbers_or_text y z with ⟨n, k, hy, hz⟩ | hyz'
    · have hx : atoi x = none := hxy'.resolve_right (by simp [hy])
      rw [labelLess_of_numbers hy hz, decide_eq_false_iff_not, not_lt] at hbc
      rw [labelLess_of_text (Or.inl hx), decide_eq_true_eq] at hac
      exact Or.inr (Or.inr ⟨n, k, hy, hz, hx, hbc, hyx, hac⟩)
    · have hzy := text_lt_of_not_labelLess hyz' hyz hbc
      rcases numbers_or_text x z with ⟨m, k, hx, hz⟩ | hxz'
      · have hy : atoi y = none := hxy'.resolve_left (by simp [hx])
        rw [labelLess_of_numbers hx hz, decide_eq_true_eq] at hac
        exact Or.inr (Or.inl ⟨k, m, hz, hx, hy, hac.le, hzy, hyx⟩)
      · rw [labelLess_of_text hxz', decide_eq_true_eq] at hac
        exact absurd hac (lt_asymm (hzy.trans hyx))

end Labels

theorem sameAddress_iff {s t : List Str} : SameAddress s t ↔ Tied labelLess s t := by
  simp only [SameAddress, Tied, sameNumber_iff]

theorem clash_of_not_between {a b c : Str} (hac : lessReverseDNS a c = true)
    (hab : lessReverseDNS a b = false) (hbc : lessReverseDNS b c = false) :
    Clash a b c ∨ Clash c a b ∨ Clash b c a := by
  rcases unordered_or_bypassed hac hab hbc with
    ⟨p, x, y, z, s, t, r, ha, hb, hc, hxy, hyz, -, hxz, hno, hno'⟩ |
    ⟨p, x, y, s, t, r, ha, hb, hc, hxy, hno, hno', hlt⟩
  · rcases interleaved_of_unordered hxy hyz hxz hno hno' with h | h | h
    · exact Or.inl (Or.inl ⟨p, x, y, z, s, t, r, ha, hb, hc, h⟩)
    · exact Or.inr (Or.inl (Or.inl ⟨p, z, x, y, r, s, t, hc, ha, hb, h⟩))
    · exact Or.inr (Or.inr (Or.inl ⟨p, y, z, x, t, r, s, hb, hc, ha, h⟩))
  · refine Or.inl (Or.inr ⟨p, x, y, s, t, r, ha, hb, hc, sameNumber_iff.mpr ⟨hxy, hno, hno'⟩, ?_⟩)
    rw [sameAddress_iff]
    intro htied
    rw [htied.not_lessBy] at hlt
    cases hlt

theorem not_between_of_clash {a b c : Str} (h : Clash a b c) :
    (lessReverseDNS a c = true ∧ lessReverseDNS a b = false ∧ lessReverseDNS b c = false) ∨
      lessReverseDNS c a = true ∧ lessReverseDNS c b = false ∧ lessReverseDNS b a = false := by
  rcases h with ⟨p, u, v, w, s, t, r, ha, hb, hc, h⟩ | ⟨p, x, y, s, t, r, ha, hb, hc, hsame, hno⟩
  · obtain ⟨⟨huv, hvw, huw⟩, hless⟩ := h.labelLess
    exact Or.inl (Unordered.lessBy ⟨p, u, v, w, s, t, r, ha, hb, hc, huv, hvw, huw, hless⟩)
  · obtain ⟨hxy, hno₁, hno₂⟩ := sameNumber_iff.mp hsame
    rw [sameAddress_iff] at hno
    cases hsr : lessBy labelLess s r with
    | true => exact Or.inl (Bypassed.lessBy ⟨p, x, y, s, t, r, ha, hb, hc, hxy, hno₁, hno₂, hsr⟩)
    | false =>
      cases hrs : lessBy labelLess r s with
      | true => exact Or.inr (Bypassed.lessBy ⟨p, x, y, r, t, s, hc, hb, ha, hxy, hno₁, hno₂, hrs⟩)
      | false => exact absurd (tied_of_not_lessBy hsr hrs) hno

theorem lessReverseDNS_asymm (a b : Str) (h : lessReverseDNS a b = true) :
    ¬ lessReverseDNS b a = true := lessBy_asymm labelLess_asymm _ _ h

theorem strictWeakOn_of_not_clash {S : Set Str}
    (h : ∀ a ∈ S, ∀ b ∈ S, ∀ c ∈ S, ¬ Clash a b c) :
    StrictWeakOn S fun a b => lessReverseDNS a b = true := by
  rw [strictWeakOn_iff lessReverseDNS_asymm]
  intro a ha b hb c hc hac
  cases hab : lessReverseDNS a b with
  | true => exact Or.inl rfl
  | false =>
    cases hbc : lessReverseDNS b c with
    | true => exact Or.inr rfl
    | false =>
      rcases clash_of_not_between hac hab hbc with hclash | hclash | hclash
      · exact absurd hclash (h a ha b hb c hc)
      · exact absurd hclash (h c hc a ha b hb)
      · exact absurd hclash (h b hb c hc a ha)

/-- The comparison is a strict weak order on a set of names exactly if no three of them clash. -/
theorem strictWeakOn_lessReverseDNS_iff (S : Set Str) :
    StrictWeakOn S (fun a b => lessReverseDNS a b = true) ↔
      ∀ a ∈ S, ∀ b ∈ S, ∀ c ∈ S, ¬ Clash a b c := by
  refine ⟨fun h a ha b hb c hc hclash => ?_, strictWeakOn_of_not_clash⟩
  rw [strictWeakOn_iff lessReverseDNS_asymm] at h
  rcases not_between_of_clash hclash with ⟨hac, hab, hbc⟩ | ⟨hca, hcb, hba⟩
  · rcases h a ha b hb c hc hac with h | h
    · exact Bool.false_ne_true (hab.symm.trans h)
    · exact Bool.false_ne_true (hbc.symm.trans h)
  · rcases h c hc b hb a ha hca with h | h
    · exact Bool.false_ne_true (hcb.symm.trans h)
    · exact Bool.false_ne_true (hba.symm.trans h)

/-- The zones of two addresses and of a block of addresses are in a cycle. -/
theorem lessReverseDNS_cycle :
    ¬ StrictWeakOn Set.univ fun a b => lessReverseDNS a b = true := by
  intro h
  have hlt : lessReverseDNS "9.2.0.192.in-addr.arpa.".toList "10.2.0.192.in-addr.arpa.".toList =
      true := by decide
  have hlt' : lessReverseDNS "10.2.0.192.in-addr.arpa.".toList
      "128/25.2.0.192.in-addr.arpa.".toList = true := by decide
  have hno : ¬ lessReverseDNS "9.2.0.192.in-addr.arpa.".toList
      "128/25.2.0.192.in-addr.arpa.".toList = true := by decide
  exact hno (h.trans _ trivial _ trivial _ trivial hlt hlt')

/-! ## Names of blocks of addresses -/

/-- The name of a block of addresses that ends with a whole octet or a whole nibble. -/
def IsBlockName (name : Str) : Prop :=
  (∃ ds, (∀ d ∈ ds, d < 256) ∧ name = reversed formatUint ds inAddrArpa) ∨
    ∃ ds, (∀ d ∈ ds, d < 16) ∧ name = reversed hexDigit ds ip6Arpa

/-- A number as it is written, or a text that is after all digits. -/
def Plain (l : Str) : Prop :=
  (∃ n < 256, l = formatUint n) ∨ (atoi l = none ∧ l.head?.all ('9' < ·) = true)

theorem le_nine_of_isDigit {c : Char} (h : c.isDigit = true) : c ≤ '9' :=
  (Char.isDigit_iff_toNat.mp h).2

theorem atoi_formatUint {n : ℕ} (h : n < 256) : atoi (formatUint n) = some (n : ℤ) := by
  obtain ⟨c, s, hcs⟩ := List.exists_cons_of_ne_nil (formatUint_ne_nil n)
  have hdigit : c.isDigit = true := isDigit_of_mem_formatUint (hcs ▸ List.mem_cons_self)
  have hparse : parseUint (c :: s) 64 = some n := hcs ▸ parseUint_formatUint (by omega)
  have hlt : n < 2 ^ 63 := by omega
  rw [hcs]
  unfold atoi
  split
  · rename_i heq
    obtain ⟨rfl, -⟩ := List.cons.inj heq
    cases hdigit
  · rename_i heq
    obtain ⟨rfl, -⟩ := List.cons.inj heq
    cases hdigit
  · rw [hparse, Option.filter_some, if_pos (decide_eq_true hlt)]
    rfl

theorem Plain.number {l : Str} {m : ℤ} (h : Plain l) (hm : atoi l = some m) :
    ∃ n < 256, l = formatUint n ∧ m = n := by
  rcases h with ⟨n, hn, rfl⟩ | ⟨hnone, -⟩
  · rw [atoi_formatUint hn] at hm
    exact ⟨n, hn, rfl, (Option.some.inj hm).symm⟩
  · rw [hnone] at hm
    cases hm

theorem Plain.not_interleaved {u v w : Str} (hv : Plain v) (hw : Plain w) :
    ¬ Interleaved u v w := by
  rintro ⟨m, n, -, hn, hnone, -, huw, hwv⟩
  obtain ⟨n, hlt, rfl, -⟩ := hv.number hn
  rcases hw with ⟨k, hk, rfl⟩ | ⟨-, hw⟩
  · rw [atoi_formatUint hk] at hnone
    cases hnone
  · rcases w with _ | ⟨c, w⟩
    · exact absurd huw (List.not_lt_nil u)
    · obtain ⟨d, s, hds⟩ := List.exists_cons_of_ne_nil (formatUint_ne_nil n)
      have hd : d ≤ '9' := le_nine_of_isDigit (isDigit_of_mem_formatUint (hds ▸ List.mem_cons_self))
      have hdc : d < c := lt_of_le_of_lt hd (of_decide_eq_true hw)
      rw [hds] at hwv
      exact lt_asymm hwv (List.cons_lt_cons_iff.mpr (Or.inl hdc))

theorem Plain.not_sameNumber {x y : Str} (hx : Plain x) (hy : Plain y) : ¬ SameNumber x y := by
  rintro ⟨hne, n, hn, hn'⟩
  obtain ⟨k, -, rfl, rfl⟩ := hx.number hn
  obtain ⟨k', -, rfl, hk'⟩ := hy.number hn'
  exact hne (congrArg formatUint (Int.ofNat.inj hk'))

theorem not_clash_of_plain {a b c : Str} (ha : ∀ l ∈ reverseLabels a, Plain l)
    (hb : ∀ l ∈ reverseLabels b, Plain l) (hc : ∀ l ∈ reverseLabels c, Plain l) :
    ¬ Clash a b c := by
  rintro (⟨p, u, v, w, s, t, r, -, hb', hc', h⟩ | ⟨p, x, y, s, t, r, ha', hb', -, h, -⟩)
  · exact Plain.not_interleaved (hb v (hb' ▸ by simp)) (hc w (hc' ▸ by simp)) h
  · exact Plain.not_sameNumber (ha x (ha' ▸ by simp)) (hb y (hb' ▸ by simp)) h

theorem reverseLabels_rooted {ls : List Str} (hne : ls ≠ []) (hdot : ∀ l ∈ ls, '.' ∉ l) :
    reverseLabels (rooted ls) = ls.reverse := by
  have hsplit := split_rooted hdot
  rw [← join_append_dot hne, split_append] at hsplit
  rw [reverseLabels, ← join_append_dot hne, trimSuffix_append, List.append_cancel_right hsplit]

theorem plain_hexDigit {d : ℕ} (h : d < 16) : Plain (hexDigit d) := by
  rcases Nat.lt_or_ge d 10 with hlt | hge
  · exact Or.inl ⟨d, by omega, (Nat.toDigits_of_lt_base hlt).symm⟩
  · right
    interval_cases d <;> exact ⟨rfl, rfl⟩

theorem plain_reversed {text : ℕ → Str} {base : ℕ} {read : Str → Option ℕ}
    (hreads : Reads text base read) (htext : ∀ d < base, Plain (text d)) {under : List Str}
    (hne : under ≠ []) (hdot : ∀ l ∈ under, '.' ∉ l) (hunder : ∀ l ∈ under, Plain l) {ds : List ℕ}
    (hds : ∀ d ∈ ds, d < base) : ∀ l ∈ reverseLabels (reversed text ds under), Plain l := by
  rw [reversed, reverseLabels_rooted (by simp [hne]) (hreads.no_dot_of_mem hds hdot)]
  intro l hl
  rcases List.mem_append.mp (List.mem_reverse.mp hl) with hl | hl
  · obtain ⟨d, hd, rfl⟩ := List.mem_map.mp hl
    exact htext d (hds d (List.mem_reverse.mp hd))
  · exact hunder l hl

theorem plain_of_isBlockName {name : Str} (h : IsBlockName name) :
    ∀ l ∈ reverseLabels name, Plain l := by
  have hinAddr : ∀ l ∈ inAddrArpa, atoi l = none ∧ l.head?.all ('9' < ·) = true := by decide
  have hip6 : ∀ l ∈ ip6Arpa, atoi l = none ∧ l.head?.all ('9' < ·) = true := by decide
  rcases h with ⟨ds, hds, rfl⟩ | ⟨ds, hds, rfl⟩
  · exact plain_reversed reads_decimal (fun d hd => Or.inl ⟨d, hd, rfl⟩) (by decide) (by decide)
      (fun l hl => Or.inr (hinAddr l hl)) hds
  · exact plain_reversed reads_hexDigit (fun d hd => plain_hexDigit hd) (by decide) (by decide)
      (fun l hl => Or.inr (hip6 l hl)) hds

theorem strictWeakOn_blockNames :
    StrictWeakOn {name | IsBlockName name} fun a b => lessReverseDNS a b = true :=
  strictWeakOn_of_not_clash fun _ ha _ hb _ hc =>
    not_clash_of_plain (plain_of_isBlockName ha) (plain_of_isBlockName hb) (plain_of_isBlockName hc)

end SplitDNS.Diag
