import SplitDNS.Go.Prefixes
import SplitDNS.Netmatch

/-! # Access lists

The lists of the access policy as texts. A client is compared in its unmapped
form, and a prefix as it was written: an IPv6 prefix may hold IPv4 addresses in
their mapped form, but no client is compared with it in that form.
-/

namespace SplitDNS.Netmatch

open Go Go.Netip Go.Strings

/-- `ParseSet`. `quote` is the verb for quoted text, and `reason` the text of `netip`'s error. -/
def parseSet (quote reason : Str → Str) (cidrs : List Str) : Except Str (List Prefix) :=
  cidrs.foldlM (fun prefixes c =>
    let c := trimSpace c
    if c = [] then .ok prefixes
    else match Prefix.parse c with
      | none => .error ("netmatch: bad CIDR ".toList ++ quote c ++ ": ".toList ++ reason c)
      | some p => .ok (prefixes ++ [p.masked])) []

/-- The IPv4-mapped form of an IPv4 address. -/
def mapped (b : BitVec 32) : Addr := .v6 (0xffff#96 ++ b) []

/-- The address is in the prefix that the text stands for, in one of its forms: the unmapped one, or
for an IPv4 address the IPv4-mapped one. -/
def InCidr (a : Addr) (c : Str) : Prop :=
  ∃ p, Prefix.parse (trimSpace c) = some p ∧
    (p.contains a.unmap = true ∨ ∃ b, a.unmap = .v4 b ∧ p.contains (mapped b) = true)

/-- One of the prefixes holds the unmapped address, which is the form that is compared. -/
def InUnmapped (a : Addr) (cidrs : List Str) : Prop :=
  ∃ c ∈ cidrs, ∃ p, Prefix.parse (trimSpace c) = some p ∧ p.contains a.unmap = true

/-- The address is an IPv4 one, and one of the prefixes holds its IPv4-mapped form. -/
def InMapped (a : Addr) (cidrs : List Str) : Prop :=
  ∃ c ∈ cidrs, ∃ p, Prefix.parse (trimSpace c) = some p ∧
    ∃ b, a.unmap = .v4 b ∧ p.contains (mapped b) = true

section Policy

variable {quote reason : Str → Str} {cidrs allow refuse : List Str} {ps : List Prefix} {a : Addr}

theorem parseSet_concat (cidrs : List Str) (c : Str) :
    parseSet quote reason (cidrs ++ [c]) =
      (parseSet quote reason cidrs).bind fun prefixes =>
        if trimSpace c = [] then .ok prefixes
        else match Prefix.parse (trimSpace c) with
          | none => .error ("netmatch: bad CIDR ".toList ++ quote (trimSpace c) ++ ": ".toList ++
              reason (trimSpace c))
          | some p => .ok (prefixes ++ [p.masked]) := by
  rw [parseSet, List.foldlM_append]
  simp only [List.foldlM_cons, List.foldlM_nil, bind_pure]
  rfl

theorem mem_of_parseSet (h : parseSet quote reason cidrs = .ok ps) {q : Prefix} :
    q ∈ ps ↔ ∃ c ∈ cidrs, ∃ p, Prefix.parse (trimSpace c) = some p ∧ p.masked = q := by
  induction cidrs using List.reverseRecOn generalizing ps with
  | nil =>
    cases h
    simp
  | append_singleton cidrs c ih =>
    rw [parseSet_concat] at h
    cases hset : parseSet quote reason cidrs with
    | error e =>
      rw [hset] at h
      cases h
    | ok prefixes =>
      rw [hset, Except.bind] at h
      have hone : q ∈ ps ↔
          q ∈ prefixes ∨ ∃ p, Prefix.parse (trimSpace c) = some p ∧ p.masked = q := by
        split_ifs at h with hblank
        · cases h
          have hnone : Prefix.parse (trimSpace c) = none := by
            rw [hblank]
            rfl
          simp [hnone]
        · cases hp : Prefix.parse (trimSpace c) with
          | none =>
            rw [hp] at h
            cases h
          | some p =>
            rw [hp] at h
            cases h
            simp [eq_comm]
      rw [hone, ih hset]
      simp [or_and_right, exists_or]

theorem setContains_iff (h : parseSet quote reason cidrs = .ok ps) :
    setContains (some ps) a = true ↔ InUnmapped a cidrs := by
  rw [setContains, Option.any_some, List.any_eq_true]
  constructor
  · rintro ⟨q, hq, hin⟩
    obtain ⟨c, hc, p, hp, rfl⟩ := (mem_of_parseSet h).mp hq
    rw [Prefix.contains_masked (Prefix.isValid_of_parse hp)] at hin
    exact ⟨c, hc, p, hp, hin⟩
  · rintro ⟨c, hc, p, hp, hin⟩
    refine ⟨p.masked, (mem_of_parseSet h).mpr ⟨c, hc, p, hp, rfl⟩, ?_⟩
    rw [Prefix.contains_masked (Prefix.isValid_of_parse hp)]
    exact hin

theorem exists_inCidr_iff :
    (∃ c ∈ cidrs, InCidr a c) ↔ InUnmapped a cidrs ∨ InMapped a cidrs := by
  constructor
  · rintro ⟨c, hc, p, hp, hin | hin⟩
    · exact Or.inl ⟨c, hc, p, hp, hin⟩
    · exact Or.inr ⟨c, hc, p, hp, hin⟩
  · rintro (⟨c, hc, p, hp, hin⟩ | ⟨c, hc, p, hp, hin⟩)
    · exact ⟨c, hc, p, hp, Or.inl hin⟩
    · exact ⟨c, hc, p, hp, Or.inr hin⟩

theorem allowed_iff {R : List Prefix} (ha : parseSet quote reason allow = .ok ps)
    (hr : parseSet quote reason refuse = .ok R) :
    Access.allowed ⟨some ps, some R⟩ a = true ↔ ¬ InUnmapped a refuse ∧ InUnmapped a allow := by
  rw [Access.allowed, ← setContains_iff hr, ← setContains_iff ha]
  cases setContains (some R) a <;> simp

/-- The policy is what the lists say, unless prefixes that hold an IPv4 address only in its mapped
form make a difference: one that refuses an address that is otherwise allowed, or one that allows
an address that is neither allowed nor refused otherwise. -/
theorem allowed_exact_iff (quote reason : Str → Str) (allow refuse : List Str) (A R : List Prefix)
    (ha : parseSet quote reason allow = .ok A) (hr : parseSet quote reason refuse = .ok R)
    (a : Addr) :
    (Access.allowed ⟨some A, some R⟩ a = true ↔
        (∃ c ∈ allow, InCidr a c) ∧ ¬ ∃ c ∈ refuse, InCidr a c) ↔
      (InUnmapped a refuse ∨
        ((InUnmapped a allow → ¬ InMapped a refuse) ∧
          (¬ InUnmapped a allow → InMapped a allow → InMapped a refuse))) := by
  rw [allowed_iff ha hr, exists_inCidr_iff, exists_inCidr_iff]
  tauto

theorem allowed_exact_iff_lan :
    Access.allowed ⟨some [⟨.v4 0x0a000000, 8⟩], some []⟩ (.v4 0x0a000001) = true ↔
      (∃ c ∈ ["10.0.0.0/8".toList], InCidr (.v4 0x0a000001) c) ∧
        ¬ ∃ c ∈ ([] : List Str), InCidr (.v4 0x0a000001) c := by
  have hnone : ¬ InMapped (.v4 0x0a000001) [] := by
    rintro ⟨c, hc, -⟩
    cases hc
  have hplain : InUnmapped (.v4 0x0a000001) ["10.0.0.0/8".toList] :=
    ⟨_, List.mem_singleton_self _, ⟨.v4 0x0a000000, 8⟩, by decide, by decide⟩
  refine (allowed_exact_iff id id ["10.0.0.0/8".toList] [] _ _ (by decide) rfl _).mpr ?_
  exact Or.inr ⟨fun _ => hnone, fun h => absurd hplain h⟩

/-- A prefix in IPv4-mapped form among the refused ones refuses nobody, and one of all IPv6
addresses among the allowed ones lets no IPv4 client in. -/
theorem mapped_refuse_ignored :
    (parseSet id id ["10.0.0.0/8".toList] = .ok [⟨.v4 0x0a000000, 8⟩] ∧
      parseSet id id ["::ffff:10.0.0.0/104".toList] =
        .ok [⟨.v6 0x00000000000000000000ffff0a000000 [], 104⟩] ∧
      ¬ (Access.allowed ⟨some [⟨.v4 0x0a000000, 8⟩],
          some [⟨.v6 0x00000000000000000000ffff0a000000 [], 104⟩]⟩ (.v4 0x0a000001) = true ↔
        (∃ c ∈ ["10.0.0.0/8".toList], InCidr (.v4 0x0a000001) c) ∧
          ¬ ∃ c ∈ ["::ffff:10.0.0.0/104".toList], InCidr (.v4 0x0a000001) c)) ∧
    parseSet id id ["::/0".toList] = .ok [⟨.v6 0 [], 0⟩] ∧
      ¬ (Access.allowed ⟨some [⟨.v6 0 [], 0⟩], some []⟩ (mapped 0x0a000001) = true ↔
        (∃ c ∈ ["::/0".toList], InCidr (mapped 0x0a000001) c) ∧
          ¬ ∃ c ∈ ([] : List Str), InCidr (mapped 0x0a000001) c) := by
  refine ⟨⟨by decide, by decide, fun h => (h.mp (by decide)).2 ?_⟩, by decide, fun h => ?_⟩
  · exact ⟨_, List.mem_singleton_self _, ⟨.v6 0x00000000000000000000ffff0a000000 [], 104⟩,
      by decide, Or.inr ⟨0x0a000001, by decide, by decide⟩⟩
  · refine absurd (h.mpr ⟨⟨_, List.mem_singleton_self _, ⟨.v6 0 [], 0⟩, by decide,
      Or.inr ⟨0x0a000001, by decide, by decide⟩⟩, ?_⟩) (by decide)
    rintro ⟨c, hc, -⟩
    cases hc

end Policy

end SplitDNS.Netmatch
