import SplitDNS.Go.Netip

/-! # Address classes

Which addresses may be written to public DNS: the global unicast ones that are
neither private nor in a special range. Which addresses may not come back in a
forwarded answer: the private and local ones, loopback of IPv4 apart. Which
clients may query: those that the policy allows and does not refuse.
-/

namespace SplitDNS.Netmatch

open Go.Netip

/-- Shared address space and the documentation ranges. -/
def nonRoutableSpecial : List Prefix :=
  [⟨.v4 0x64400000, 10⟩, ⟨.v4 0xc0000200, 24⟩, ⟨.v4 0xc6336400, 24⟩, ⟨.v4 0xcb007100, 24⟩,
    ⟨.v6 0x20010db8000000000000000000000000 [], 32⟩]

def isDDNSEligible (addr : Addr) : Bool :=
  let addr := addr.unmap
  addr.isValid && addr.isGlobalUnicast &&
    !(addr.isPrivate || addr.isLinkLocalUnicast || addr.isLoopback) &&
    nonRoutableSpecial.all fun p => !p.contains addr

theorem isDDNSEligible_unmap (a : Addr) : isDDNSEligible a.unmap = isDDNSEligible a := by
  simp only [isDDNSEligible, Addr.unmap_unmap]

example : [Addr.v4 0x647fffff, .v4 0xcb007107, .v4 0x0a000001, .v4 0x08080808,
    .v6 0x20010db8000000000000000000000001 [], .v6 0x00000000000000000000ffff08080808 []].map
      isDDNSEligible = [false, false, false, true, false, true] := by
  decide

/-- The ranges that are stripped from forwarded answers. -/
def forwardBlock : List Prefix :=
  [⟨.v4 0x0a000000, 8⟩, ⟨.v4 0xac100000, 12⟩, ⟨.v4 0xc0a80000, 16⟩, ⟨.v4 0xa9fe0000, 16⟩,
    ⟨.v4 0xc0000000, 24⟩, ⟨.v4 0xc6120000, 15⟩,
    ⟨.v6 0xfc000000000000000000000000000000 [], 7⟩, ⟨.v6 0xfe800000000000000000000000000000 [], 10⟩,
    ⟨.v6 1 [], 128⟩, ⟨.v6 0 [], 128⟩]

def isForwardBlocked (addr : Addr) : Bool :=
  let addr := addr.unmap
  addr.isValid && forwardBlock.any fun p => p.contains addr

theorem isForwardBlocked_unmap (a : Addr) : isForwardBlocked a.unmap = isForwardBlocked a := by
  simp only [isForwardBlocked, Addr.unmap_unmap]

/-- The ranges that are stripped from forwarded answers although they count as public: protocol
assignments and benchmarking. -/
def blockedButPublic : List Prefix := [⟨.v4 0xc0000000, 24⟩, ⟨.v4 0xc6120000, 15⟩]

theorem isDDNSEligible_v4 (b : BitVec 32) :
    isDDNSEligible (.v4 b) = true ↔
      (b ≠ 0 ∧ b ≠ BitVec.allOnes 32 ∧ octet b 0 ≠ 127 ∧ octet b 0 / 16 ≠ 14 ∧
        ¬ (octet b 0 = 169 ∧ octet b 1 = 254)) ∧
      (octet b 0 ≠ 10 ∧ ¬ (octet b 0 = 172 ∧ octet b 1 / 16 = 1) ∧
        ¬ (octet b 0 = 192 ∧ octet b 1 = 168)) ∧
      ∀ p ∈ nonRoutableSpecial, p.contains (.v4 b) = false := by
  simp [isDDNSEligible, Addr.unmap, Addr.isValid, Addr.isGlobalUnicast, Addr.isPrivate,
    Addr.isLinkLocalUnicast, Addr.isLoopback, Addr.isMulticast, ← imp_iff_not_or]
  constructor
  · rintro ⟨⟨⟨⟨⟨⟨h0, h1⟩, h127⟩, h224⟩, h169⟩, ⟨⟨⟨h10, h172⟩, h192⟩, -⟩, -⟩, hspecial⟩
    exact ⟨⟨h0, h1, h127, h224, h169⟩, ⟨h10, h172, h192⟩, hspecial⟩
  · rintro ⟨⟨h0, h1, h127, h224, h169⟩, ⟨h10, h172, h192⟩, hspecial⟩
    exact ⟨⟨⟨⟨⟨⟨h0, h1⟩, h127⟩, h224⟩, h169⟩, ⟨⟨⟨h10, h172⟩, h192⟩, h169⟩, h127⟩, hspecial⟩

theorem not_eligible_of_scope {a : Addr}
    (h : a.unmap.isGlobalUnicast = false ∨ a.unmap.isPrivate = true ∨
      a.unmap.isLinkLocalUnicast = true ∨ a.unmap.isLoopback = true) :
    isDDNSEligible a = false := by
  rcases h with h | h | h | h <;> simp [isDDNSEligible, h]

theorem eligible_of_blockedButPublic {b : BitVec 32} {p : Prefix} (hp : p ∈ blockedButPublic)
    (h : p.contains (.v4 b) = true) : isDDNSEligible (.v4 b) = true := by
  rw [isDDNSEligible_v4]
  simp only [blockedButPublic, List.mem_cons, List.not_mem_nil, or_false] at hp
  rcases hp with rfl | rfl <;>
    simp [nonRoutableSpecial, Prefix.contains, octet, ← BitVec.toNat_inj] at h ⊢ <;> omega

theorem not_eligible_of_blocked_v4 {b : BitVec 32} {p : Prefix} (hp : p ∈ forwardBlock)
    (hpublic : p ∉ blockedButPublic) (h : p.contains (.v4 b) = true) :
    isDDNSEligible (.v4 b) = false := by
  have hlt := b.isLt
  apply not_eligible_of_scope
  simp only [forwardBlock, List.mem_cons, List.not_mem_nil, or_false] at hp
  rcases hp with rfl | rfl | rfl | rfl | rfl | rfl | rfl | rfl | rfl | rfl
  · have h10 : octet b 0 = 10 := by simp [Prefix.contains, octet] at h ⊢; omega
    exact Or.inr (Or.inl (by simp [Addr.unmap, Addr.isPrivate, h10]))
  · have h172 : octet b 0 = 172 ∧ octet b 1 / 16 = 1 := by
      simp [Prefix.contains, octet] at h ⊢; omega
    exact Or.inr (Or.inl (by simp [Addr.unmap, Addr.isPrivate, h172]))
  · have h192 : octet b 0 = 192 ∧ octet b 1 = 168 := by
      simp [Prefix.contains, octet] at h ⊢; omega
    exact Or.inr (Or.inl (by simp [Addr.unmap, Addr.isPrivate, h192]))
  · have h169 : octet b 0 = 169 ∧ octet b 1 = 254 := by
      simp [Prefix.contains, octet] at h ⊢; omega
    exact Or.inr (Or.inr (Or.inl (by simp [Addr.unmap, Addr.isLinkLocalUnicast, h169])))
  · exact absurd (by simp [blockedButPublic]) hpublic
  · exact absurd (by simp [blockedButPublic]) hpublic
  all_goals cases h

theorem blocked_v4_iff (b : BitVec 32) :
    (isForwardBlocked (.v4 b) = true → isDDNSEligible (.v4 b) = false) ↔
      ∀ p ∈ blockedButPublic, p.contains (.v4 b) = false := by
  have hblocked : isForwardBlocked (.v4 b) = true ↔ ∃ p ∈ forwardBlock, p.contains (.v4 b) = true :=
    List.any_eq_true
  constructor
  · intro h p hp
    by_contra hin
    have hin := Bool.eq_true_of_not_eq_false hin
    have hfilter : p ∈ forwardBlock := by
      simp only [blockedButPublic, List.mem_cons, List.not_mem_nil, or_false] at hp
      rcases hp with rfl | rfl <;> simp [forwardBlock]
    have hno := h (hblocked.mpr ⟨p, hfilter, hin⟩)
    rw [eligible_of_blockedButPublic hp hin] at hno
    cases hno
  · intro h hb
    obtain ⟨p, hp, hin⟩ := hblocked.mp hb
    refine not_eligible_of_blocked_v4 hp (fun hpublic => ?_) hin
    rw [h p hpublic] at hin
    cases hin

theorem not_eligible_of_blocked_v6 {b : BitVec 128} {z : Go.Str}
    (hu : (Addr.v6 b z).unmap = .v6 b z) (h : isForwardBlocked (.v6 b z) = true) :
    isDDNSEligible (.v6 b z) = false := by
  have hlt := b.isLt
  apply not_eligible_of_scope
  simp only [isForwardBlocked, hu, Addr.isValid, forwardBlock, Prefix.contains, List.any_cons,
    List.any_nil, Bool.false_or, Bool.or_false, Bool.true_and, Bool.or_eq_true, Bool.and_eq_true,
    decide_eq_true_eq] at h
  rw [hu]
  rcases h with ⟨-, h⟩ | ⟨-, h⟩ | ⟨-, h⟩ | ⟨hz, h⟩
  · have hp : group b 0 / 512 = 0xfc00 / 512 := by simp [group] at h ⊢; omega
    exact Or.inr (Or.inl (by simpa [Addr.isPrivate, hu] using hp))
  · have hl : group b 0 / 64 = 0xfe80 / 64 := by simp [group] at h ⊢; omega
    exact Or.inr (Or.inr (Or.inl (by simpa [Addr.isLinkLocalUnicast, hu] using hl)))
  · have hb : b = 1 := BitVec.eq_of_toNat_eq (by simp at h ⊢; omega)
    exact Or.inr (Or.inr (Or.inr (by simpa [Addr.isLoopback, hu] using hb)))
  · have hb : b = 0 := BitVec.eq_of_toNat_eq (by simp at h ⊢; omega)
    exact Or.inl (by simp [Addr.isGlobalUnicast, hb, hz])

/-- An address that the forwarding filter blocks is kept out of public DNS, unless it is in one
of the two ranges that only the filter knows. -/
theorem forwardBlocked_not_eligible_iff (a : Addr) :
    (isForwardBlocked a = true → isDDNSEligible a = false) ↔
      ∀ p ∈ blockedButPublic, p.contains a.unmap = false := by
  rw [← isForwardBlocked_unmap, ← isDDNSEligible_unmap]
  have hu := Addr.unmap_unmap a
  rcases hcase : a.unmap with _ | b | ⟨b, z⟩
  · exact iff_of_true (fun _ => rfl) (by decide)
  · exact blocked_v4_iff b
  · rw [hcase] at hu
    exact iff_of_true (not_eligible_of_blocked_v6 hu) (by simp [blockedButPublic, Prefix.contains])

/-- 192.0.0.170 is stripped from forwarded answers and may be written to public DNS. -/
theorem protocol_assignment_eligible :
    isForwardBlocked (.v4 0xc00000aa) = true ∧ isDDNSEligible (.v4 0xc00000aa) = true := by
  decide

/-- `Set.Contains`, for a set that may be nil. -/
def setContains (s : Option (List Prefix)) (addr : Addr) : Bool :=
  s.any fun prefixes => prefixes.any fun p => p.contains addr.unmap

structure Access where
  allow : Option (List Prefix) := none
  refuse : Option (List Prefix) := none

def Access.allowed (a : Access) (addr : Addr) : Bool :=
  if setContains a.refuse addr then false else setContains a.allow addr

end SplitDNS.Netmatch
