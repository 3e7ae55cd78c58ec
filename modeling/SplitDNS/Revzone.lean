import SplitDNS.Config
import SplitDNS.Dns.ReverseNames
import SplitDNS.Resolver.Names

/-! # Reverse zones of prefixes

The reverse zone of a prefix whose length is a multiple of the width of a label,
eight bits or four, and the zones of a list of detected prefixes. A zone stands
for the addresses of its prefix: their reverse names are the ones at or below it.
-/

namespace SplitDNS.Revzone

open Go Go.Netip Go.Strings Dns Resolver

def as16 (b : BitVec 128) : List ℕ := digits 256 16 b.toNat

def nibbles (b : BitVec 128) : List ℕ := (as16 b).flatMap fun x => [x / 16, x % 16]

def notAligned (family : String) (p : Prefix) (unit : String) : Str :=
  "revzone: ".toList ++ family.toList ++ " prefix ".toList ++ p.string ++ " not ".toList ++
    unit.toList ++ "-aligned (bits=".toList ++ formatUint p.bits ++
    "); configure explicitly".toList

/-- `ZoneFor`. The source has no octets for a mapped prefix of more than 32 bits; detection
unmaps the addresses. -/
def zoneFor (p : Prefix) : Except Str Str :=
  let p := p.masked
  match p.addr.unmap with
  | .v4 b =>
    if p.bits % 8 ≠ 0 then .error (notAligned "IPv4" p "octet")
    else .ok (join (((octets b).take (p.bits / 8)).reverse.map formatUint ++
      ["in-addr".toList, "arpa".toList]) '.' ++ ['.'])
  | .v6 b _ =>
    if p.bits % 4 ≠ 0 then .error (notAligned "IPv6" p "nibble")
    else .ok (join (((nibbles b).take (p.bits / 4)).reverse.map hexDigit ++
      ["ip6".toList, "arpa".toList]) '.' ++ ['.'])
  | .invalid =>
    .error ("revzone: address ".toList ++ Addr.invalid.string ++
      " is neither IPv4 nor IPv6".toList)

example : zoneFor ⟨.v4 0xc0a80000, 16⟩ = .ok "168.192.in-addr.arpa.".toList := by decide

/-- The width of a label in the reverse names of the family. -/
def labelBits (p : Prefix) : ℕ := if p.addr.is4 then 8 else 4

/-- A prefix of IPv4 or of IPv6 addresses that are not all IPv4-mapped. -/
structure Plain (p : Prefix) : Prop where
  isValid : p.isValid = true
  not_mapped : p.addr.is4In6 = true → p.bits < 96

section Zones

variable {p : Prefix}

theorem flatMap_range_pairs (f : ℕ → ℕ) (n : ℕ) :
    (List.range n).flatMap (fun i => [f (2 * i), f (2 * i + 1)]) = (List.range (2 * n)).map f := by
  induction n with
  | zero => rfl
  | succ n ih =>
    rw [List.range_succ, List.flatMap_append, ih, Nat.mul_succ, List.range_succ, List.range_succ]
    simp

theorem nibbles_eq (b : BitVec 128) : nibbles b = digits 16 32 b.toNat := by
  rw [nibbles, as16, digits, digits, List.flatMap_map, ← flatMap_range_pairs _ 16]
  refine List.flatMap_congr fun i hi => ?_
  have hi := List.mem_range.mp hi
  have hbase : (256 : ℕ) ^ (16 - 1 - i) = 16 ^ (32 - 1 - (2 * i + 1)) := by
    rw [show (256 : ℕ) = 16 ^ 2 from rfl, ← pow_mul]
    congr 1
    omega
  have hhigh : 32 - 1 - 2 * i = 32 - 1 - (2 * i + 1) + 1 := by omega
  rw [hbase, hhigh, pow_succ, ← Nat.div_div_eq_div_mul]
  congr 1
  · omega
  · congr 1
    omega

theorem not_mapped_clear {b : BitVec 128} {bits : ℕ}
    (h : (Addr.v6 b []).is4In6 = true → bits < 96) :
    (Addr.v6 (Prefix.clear b (128 - bits)) []).is4In6 = false := by
  rw [Bool.eq_false_iff]
  simp only [Addr.is4In6, Prefix.toNat_clear, ne_eq, decide_eq_true_eq] at h ⊢
  intro hmapped
  rcases Nat.lt_or_ge bits 96 with hlow | hhigh
  · -- the bit before the last 32 is cleared as well
    have hpow : 2 ^ (128 - bits) = 2 ^ (95 - bits) * 2 * 2 ^ 32 := by
      rw [mul_assoc, ← pow_succ', ← pow_add]
      congr 1
      omega
    rw [hpow, ← mul_assoc, Nat.mul_div_cancel _ (Nat.two_pow_pos 32), ← mul_assoc] at hmapped
    omega
  · have hpow : 2 ^ 32 = 2 ^ (128 - bits) * 2 ^ (32 - (128 - bits)) := by
      rw [← pow_add]
      congr 1
      omega
    rw [hpow, ← Nat.div_div_eq_div_mul, Nat.mul_div_cancel _ (Nat.two_pow_pos _),
      Nat.div_div_eq_div_mul, ← hpow] at hmapped
    exact absurd (h hmapped) hhigh.not_gt

theorem zoneFor_v4 {b : BitVec 32} {bits : ℕ} (h : bits ≤ 32) :
    zoneFor ⟨.v4 b, bits⟩ =
      if bits % 8 ≠ 0 then .error (notAligned "IPv4" (Prefix.masked ⟨.v4 b, bits⟩) "octet")
      else .ok (reversed formatUint
        ((digits 256 4 (Prefix.clear b (32 - bits)).toNat).take (bits / 8)) inAddrArpa) := by
  rw [zoneFor, reversed, ← join_append_dot (by simp [inAddrArpa])]
  simp only [Prefix.masked, if_pos h, Addr.unmap]
  rfl

theorem zoneFor_v6 {b : BitVec 128} {bits : ℕ} (h : Plain ⟨.v6 b [], bits⟩) :
    zoneFor ⟨.v6 b [], bits⟩ =
      if bits % 4 ≠ 0 then .error (notAligned "IPv6" (Prefix.masked ⟨.v6 b [], bits⟩) "nibble")
      else .ok (reversed hexDigit
        ((digits 16 32 (Prefix.clear b (128 - bits)).toNat).take (bits / 4)) ip6Arpa) := by
  have hbits : bits ≤ 128 := by simpa [Prefix.isValid] using h.isValid
  rw [zoneFor, reversed, ← join_append_dot (by simp [ip6Arpa])]
  simp only [Prefix.masked, if_pos hbits, Addr.unmap, not_mapped_clear h.not_mapped,
    Bool.false_eq_true, if_false, nibbles_eq]
  rfl

theorem inAddrArpa_no_dot : ∀ l ∈ inAddrArpa, '.' ∉ l := by decide

theorem ip6Arpa_no_dot : ∀ l ∈ ip6Arpa, '.' ∉ l := by decide

/-- The address has a reverse name, which is at or below the zone. -/
def Under (a : Addr) (zone : Str) : Prop :=
  ∃ name, reverseAddr a.string = some name ∧ isSuffixLabel name zone = true

theorem under_of_some {a : Addr} {name zone : Str} (h : reverseAddr a.string = some name) :
    Under a zone ↔ AtOrBelow name zone := by
  simp [Under, h, isSuffixLabel_iff]

theorem not_under_of_none {a : Addr} {zone : Str} (h : reverseAddr a.string = none) :
    ¬ Under a zone := by
  simp [Under, h]

theorem not_atOrBelow_v4_v6 {ds es : List ℕ} (hds : ∀ d ∈ ds, d < 256) (hes : ∀ e ∈ es, e < 16) :
    ¬ AtOrBelow (reversed hexDigit es ip6Arpa) (reversed formatUint ds inAddrArpa) ∧
      ¬ AtOrBelow (reversed formatUint ds inAddrArpa) (reversed hexDigit es ip6Arpa) :=
  ⟨reads_decimal.not_atOrBelow_reversed reads_hexDigit hds hes inAddrArpa_no_dot ip6Arpa_no_dot rfl
      (by decide),
    reads_hexDigit.not_atOrBelow_reversed reads_decimal hes hds ip6Arpa_no_dot inAddrArpa_no_dot rfl
      (by decide)⟩

theorem under_v4_iff {b : BitVec 32} {n : ℕ} (hn : n ≤ 4) {a : Addr} (ha : a.is4In6 = false) :
    Under a (reversed formatUint ((digits 256 4 (Prefix.clear b (32 - 8 * n)).toNat).take n)
      inAddrArpa) ↔ Prefix.contains ⟨.v4 b, 8 * n⟩ a = true := by
  have hdigits : ∀ d ∈ (digits 256 4 (Prefix.clear b (32 - 8 * n)).toNat).take n, d < 256 :=
    fun d hd => lt_of_mem_digits (by decide) (List.mem_of_mem_take hd)
  cases a with
  | invalid =>
    exact iff_of_false (not_under_of_none reverseAddr_invalid) (by simp [Prefix.contains])
  | v4 c =>
    rw [under_of_some (reverseAddr_v4 c), reads_decimal.atOrBelow_clear_iff
      (show 256 = 2 ^ 8 from rfl) (show 32 = 8 * 4 from rfl) hn inAddrArpa_no_dot]
    simp [Prefix.contains]
  | v6 c z =>
    refine iff_of_false ?_ (by simp [Prefix.contains])
    rcases eq_or_ne z [] with rfl | hz
    · rw [under_of_some (reverseAddr_v6 ha)]
      exact (not_atOrBelow_v4_v6 hdigits fun _ => lt_of_mem_digits (by decide)).1
    · exact not_under_of_none (reverseAddr_zone hz)

theorem under_v6_iff {b : BitVec 128} {n : ℕ} (hn : n ≤ 32) {a : Addr} (ha : a.is4In6 = false) :
    Under a (reversed hexDigit ((digits 16 32 (Prefix.clear b (128 - 4 * n)).toNat).take n)
      ip6Arpa) ↔ Prefix.contains ⟨.v6 b [], 4 * n⟩ a = true := by
  have hdigits : ∀ d ∈ (digits 16 32 (Prefix.clear b (128 - 4 * n)).toNat).take n, d < 16 :=
    fun d hd => lt_of_mem_digits (by decide) (List.mem_of_mem_take hd)
  cases a with
  | invalid =>
    exact iff_of_false (not_under_of_none reverseAddr_invalid) (by simp [Prefix.contains])
  | v4 c =>
    refine iff_of_false ?_ (by simp [Prefix.contains])
    rw [under_of_some (reverseAddr_v4 c)]
    exact (not_atOrBelow_v4_v6 (fun _ => lt_of_mem_digits (by decide)) hdigits).2
  | v6 c z =>
    rcases eq_or_ne z [] with rfl | hz
    · rw [under_of_some (reverseAddr_v6 ha), reads_hexDigit.atOrBelow_clear_iff
        (show 16 = 2 ^ 4 from rfl) (show 128 = 4 * 32 from rfl) hn ip6Arpa_no_dot]
      simp [Prefix.contains]
    · exact iff_of_false (not_under_of_none (reverseAddr_zone hz)) (by simp [Prefix.contains, hz])

theorem zoneFor_cases (h : Plain p) :
    (labelBits p ∣ p.bits ∧ ∃ zone, zoneFor p = .ok zone ∧
        ∀ a : Addr, a.is4In6 = false → (Under a zone ↔ p.contains a = true)) ∨
      ¬ labelBits p ∣ p.bits ∧ ∃ e, zoneFor p = .error e := by
  obtain ⟨addr, bits⟩ := p
  cases addr with
  | invalid => cases h.isValid
  | v4 b =>
    have hbits : bits ≤ 32 := by simpa [Prefix.isValid] using h.isValid
    rw [zoneFor_v4 hbits]
    by_cases hdvd : 8 ∣ bits
    · obtain ⟨n, rfl⟩ := hdvd
      refine Or.inl ⟨⟨n, rfl⟩, _, ?_, fun a ha => @under_v4_iff b n (by omega) a ha⟩
      rw [if_neg (by simp), Nat.mul_div_cancel_left n (by decide)]
    · refine Or.inr ⟨hdvd, _, if_pos fun hmod => ?_⟩
      exact hdvd (Nat.dvd_of_mod_eq_zero hmod)
  | v6 b z =>
    obtain ⟨rfl, hbits⟩ : z = [] ∧ bits ≤ 128 := by simpa [Prefix.isValid] using h.isValid
    rw [zoneFor_v6 h]
    by_cases hdvd : 4 ∣ bits
    · obtain ⟨n, rfl⟩ := hdvd
      refine Or.inl ⟨⟨n, rfl⟩, _, ?_, fun a ha => @under_v6_iff b n (by omega) a ha⟩
      rw [if_neg (by simp), Nat.mul_div_cancel_left n (by decide)]
    · refine Or.inr ⟨hdvd, _, if_pos fun hmod => ?_⟩
      exact hdvd (Nat.dvd_of_mod_eq_zero hmod)

theorem exists_zoneFor (h : Plain p) (hdvd : labelBits p ∣ p.bits) :
    ∃ zone, zoneFor p = .ok zone := by
  rcases zoneFor_cases h with ⟨-, zone, hzone, -⟩ | ⟨hnot, -⟩
  · exact ⟨zone, hzone⟩
  · exact absurd hdvd hnot

theorem dvd_of_zoneFor (h : Plain p) {zone : Str} (hzone : zoneFor p = .ok zone) :
    labelBits p ∣ p.bits := by
  rcases zoneFor_cases h with ⟨hdvd, -⟩ | ⟨-, e, he⟩
  · exact hdvd
  · rw [hzone] at he
    cases he

/-- A valid prefix is refused exactly if it does not end at a label; otherwise the addresses in it
are those whose reverse names are at or below its zone. -/
theorem zoneFor_exact (p : Prefix) (hvalid : p.isValid = true)
    (hmapped : p.addr.is4In6 = true → p.bits < 96) :
    ((∃ e, zoneFor p = .error e) ↔ ¬ (if p.addr.is4 then 8 else 4) ∣ p.bits) ∧
      ∀ zone, zoneFor p = .ok zone → ∀ a : Addr, a.is4In6 = false →
        ((∃ name, reverseAddr a.string = some name ∧ isSuffixLabel name zone = true) ↔
          p.contains a = true) := by
  rcases zoneFor_cases ⟨hvalid, hmapped⟩ with ⟨hdvd, zone, hzone, hunder⟩ | ⟨hdvd, e, he⟩
  · refine ⟨iff_of_false ?_ (not_not_intro hdvd), fun zone' hzone' => ?_⟩
    · simp [hzone]
    · obtain rfl : zone = zone' := Except.ok.inj (hzone.symm.trans hzone')
      exact hunder
  · refine ⟨iff_of_true ⟨e, he⟩ hdvd, fun zone hzone => ?_⟩
    rw [he] at hzone
    cases hzone

theorem zoneFor_exact_nas :
    zoneFor ⟨.v4 0xc0a80000, 16⟩ = .ok "168.192.in-addr.arpa.".toList ∧
      (∃ name, reverseAddr (Addr.v4 0xc0a80107).string = some name ∧
        isSuffixLabel name "168.192.in-addr.arpa.".toList = true) := by
  have hzone : zoneFor ⟨.v4 0xc0a80000, 16⟩ = .ok "168.192.in-addr.arpa.".toList := by decide
  refine ⟨hzone, ?_⟩
  exact ((zoneFor_exact ⟨.v4 0xc0a80000, 16⟩ rfl (by decide)).2 _ hzone (.v4 0xc0a80107) rfl).mpr
    (by decide)

end Zones

section Detection

/-- `net.Addr`: the bytes of an address with the length of its mask, or anything else. -/
inductive NetAddr where
  | ipNet (ip : List UInt8) (ones : ℕ)
  | other

def Scope.admits (ip : Addr) : Scope → Bool
  | scopeOff => false
  | scopePrivate => ip.isPrivate
  | scopeGlobal => ip.isGlobalUnicast && !ip.isPrivate
  | scopeAll => ip.isPrivate || ip.isGlobalUnicast

/-- The prefix of an interface's address, if the scope has it. -/
def managed (scope : Scope) : NetAddr → Option Prefix
  | .other => none
  | .ipNet ip ones =>
    (addrFromSlice ip).bind fun ip =>
      let ip := ip.unmap
      if ip.isLoopback || ip.isLinkLocalUnicast || ip.isLinkLocalMulticast then none
      else if scope.admits ip then some (Prefix.of ip ones).masked
      else none

/-- `classifyAndFilter`: each prefix once, compared and sorted by its text. -/
def classifyAndFilter (addrs : List NetAddr) (scope : Scope) : List Prefix :=
  if scope = .scopeOff then []
  else ((addrs.filterMap (managed scope)).foldl (fun out p =>
    if out.any fun q => q.string = p.string then out else out ++ [p]) []).insertionSort
      fun p q => p.string ≤ q.string

/-- `DetectPrefixes`, for the addresses of the interfaces or the error of listing them. -/
def detectPrefixes (addrs : Except Str (List NetAddr)) (scope : Scope) :
    Except Str (List Prefix) :=
  addrs.map fun addrs => classifyAndFilter addrs scope

/-- What the loop of `Derive` has after some prefixes. -/
def derivedFrom (prefixes : List Prefix) : List Str × List Prefix :=
  prefixes.foldl (fun (zones, unaligned) p =>
    match zoneFor p.masked with
    | .error _ => (zones, unaligned ++ [p.masked])
    | .ok z => (if zones.contains z then zones else zones ++ [z], unaligned)) ([], [])

/-- `Derive`: the zones in order, each once, and the prefixes refused. -/
def derive (prefixes : List Prefix) : List Str × List Prefix :=
  ((derivedFrom prefixes).1.insertionSort (· ≤ ·), (derivedFrom prefixes).2)

variable {ps : List Prefix}

theorem zoneFor_masked (p : Prefix) : zoneFor p.masked = zoneFor p := by
  rw [zoneFor, zoneFor, Prefix.masked_masked]

theorem derivedFrom_concat (ps : List Prefix) (p : Prefix) :
    derivedFrom (ps ++ [p]) =
      match zoneFor p with
      | .error _ => ((derivedFrom ps).1, (derivedFrom ps).2 ++ [p.masked])
      | .ok z => (if (derivedFrom ps).1.contains z then (derivedFrom ps).1
          else (derivedFrom ps).1 ++ [z], (derivedFrom ps).2) := by
  rw [derivedFrom, List.foldl_append, List.foldl_cons, List.foldl_nil, zoneFor_masked]
  rfl

theorem mem_derivedFrom {z : Str} :
    z ∈ (derivedFrom ps).1 ↔ ∃ p ∈ ps, zoneFor p = .ok z := by
  induction ps using List.reverseRecOn with
  | nil => simp [derivedFrom]
  | append_singleton ps p ih =>
    rw [derivedFrom_concat]
    cases hp : zoneFor p with
    | error e => simp [ih, hp, or_and_right, exists_or]
    | ok z' =>
      have hmem : z ∈ (if (derivedFrom ps).1.contains z' then (derivedFrom ps).1
          else (derivedFrom ps).1 ++ [z']) ↔ z ∈ (derivedFrom ps).1 ∨ z = z' := by
        split_ifs with hseen
        · rw [List.contains_iff_mem] at hseen
          exact ⟨Or.inl, fun h => h.elim id fun h => h ▸ hseen⟩
        · simp
      dsimp only
      rw [hmem, ih]
      simp [hp, or_and_right, exists_or, eq_comm]

theorem mem_derive {z : Str} : z ∈ (derive ps).1 ↔ ∃ p ∈ ps, zoneFor p = .ok z := by
  rw [derive, List.mem_insertionSort, mem_derivedFrom]

theorem unaligned_derive (h : ∀ p ∈ ps, Plain p) :
    (derive ps).2 = (ps.filter fun p => ¬ labelBits p ∣ p.bits).map Prefix.masked := by
  change (derivedFrom ps).2 = _
  induction ps using List.reverseRecOn with
  | nil => rfl
  | append_singleton ps p ih =>
    have hps := ih fun q hq => h q (by simp [hq])
    rw [derivedFrom_concat, List.filter_append, List.map_append]
    rcases zoneFor_cases (h p (by simp)) with ⟨hdvd, z, hz, -⟩ | ⟨hdvd, e, he⟩
    · simp [hz, hdvd, hps]
    · simp [he, hdvd, hps]

theorem arpa_suffix_of_zoneFor {p : Prefix} {z : Str} (h : zoneFor p = .ok z) :
    "arpa.".toList <:+ z := by
  have hjoin : ∀ (ls : List Str) (l : Str),
      "arpa.".toList <:+ join (ls ++ [l, "arpa".toList]) '.' ++ ['.'] := by
    intro ls l
    rw [join_append_dot (by simp)]
    exact ⟨rooted ls ++ l ++ ['.'], by simp [rooted]⟩
  unfold zoneFor at h
  dsimp only at h
  split at h
  · split_ifs at h
    cases h
    exact hjoin _ _
  · split_ifs at h
    cases h
    exact hjoin _ _
  · cases h

theorem not_mapped_masked_of {a : Addr} (h : a.is4In6 = false) (bits : ℕ) :
    (Prefix.of a bits).masked.addr.is4In6 = false := by
  cases a with
  | invalid => rfl
  | v4 b =>
    by_cases hbits : bits ≤ 32 <;>
      simp [Prefix.of, Prefix.masked, hbits, Prefix.zero, Addr.is4In6]
  | v6 b z =>
    have hclear := @not_mapped_clear b bits fun hm => absurd (h.symm.trans hm) Bool.false_ne_true
    by_cases hbits : bits ≤ 128
    · simpa [Prefix.of, Prefix.masked, hbits] using hclear
    · simp [Prefix.of, Prefix.masked, hbits, Prefix.zero, Addr.is4In6]

theorem managed_eq_some {scope : Scope} {addr : NetAddr} {p : Prefix}
    (h : managed scope addr = some p) : ∃ a ones, p = (Prefix.of (Addr.unmap a) ones).masked := by
  cases addr with
  | other => cases h
  | ipNet ip ones =>
    obtain ⟨a, -, ha⟩ := Option.bind_eq_some_iff.mp h
    dsimp only at ha
    split_ifs at ha
    cases ha
    exact ⟨a, ones, rfl⟩

theorem plain_of_mem_classifyAndFilter {addrs : List NetAddr} {scope : Scope} {p : Prefix}
    (h : p ∈ classifyAndFilter addrs scope) : p.masked = p ∧ (p.isValid = true → Plain p) := by
  have hsub : ∀ l : List Prefix, l.foldl (fun out p =>
      if out.any fun q => q.string = p.string then out else out ++ [p]) [] ⊆ l := by
    intro l
    induction l using List.reverseRecOn with
    | nil => exact List.Subset.refl _
    | append_singleton l q ih =>
      rw [List.foldl_append, List.foldl_cons, List.foldl_nil]
      split_ifs
      · exact List.Subset.trans ih (List.subset_append_left l [q])
      · exact List.append_subset.mpr ⟨List.Subset.trans ih (List.subset_append_left l [q]),
          List.subset_append_right l [q]⟩
  unfold classifyAndFilter at h
  split_ifs at h
  · cases h
  · have hmem := hsub _ (List.mem_insertionSort _ |>.mp h)
    obtain ⟨addr, -, hp⟩ := List.mem_filterMap.mp hmem
    obtain ⟨a, ones, rfl⟩ := managed_eq_some hp
    refine ⟨Prefix.masked_masked _, fun hvalid => ⟨hvalid, fun hm => ?_⟩⟩
    rw [not_mapped_masked_of (Addr.is4In6_unmap a)] at hm
    cases hm

end Detection

end SplitDNS.Revzone
