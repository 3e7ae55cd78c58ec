import SplitDNS.Resolver.Names

/-! # Recovered hosts

Which names are read as a host of the local network. The members that are taken
off the end of a name are the local suffixes and the apexes. If none of them is a
label-aligned suffix of another, a name splits into a host and members in one way
only, and the loop finds it.
-/

namespace SplitDNS.Resolver

open Go Go.Strings Dns Model

variable {snap : Snapshot} {cur rest x m host : Str} {ms : List Str}

def LocalMember (snap : Snapshot) (m : Str) : Prop :=
  m = "local".toList ∨ snap.localDomain ≠ [] ∧ m = snap.localDomain

instance : DecidablePred (LocalMember snap) := fun _ => inferInstanceAs (Decidable (_ ∨ _ ∧ _))

/-- A local suffix or the apex of a zone, without its last dot. -/
def DotlessMember (snap : Snapshot) (m : Str) : Prop := LocalMember snap m ∨ m ++ ['.'] ∈ snap.zones

instance : DecidablePred (DotlessMember snap) := fun _ => inferInstanceAs (Decidable (_ ∨ _))

def SuffixFree (snap : Snapshot) : Prop :=
  ∀ m m', DotlessMember snap m → DotlessMember snap m' → AtOrBelow m m' → m = m'

structure HostLabel (snap : Snapshot) (host : Str) : Prop where
  ne_nil : host ≠ []
  dot : '.' ∉ host
  underscore : ¬ ['_'] <+: host
  not_local : ¬ LocalMember snap host

/-- A host followed by members, as a fully qualified name. -/
def spelled (host : Str) (ms : List Str) : Str := host ++ ms.flatMap (fun m => '.' :: m) ++ ['.']

theorem isHostLabel_iff : isHostLabel snap host = true ↔ HostLabel snap host := by
  have hiff : isHostLabel snap host = true ↔ host ≠ [] ∧ '.' ∉ host ∧ ¬ ['_'] <+: host ∧
      ¬ LocalMember snap host := by
    simp only [isHostLabel, hasPrefix, LocalMember, ne_eq, decide_not, Bool.not_and, Bool.not_not,
      Bool.and_eq_true, Bool.not_eq_true', decide_eq_false_iff_not, Bool.or_eq_true,
      decide_eq_true_eq, not_or, not_and, imp_iff_not_or, Decidable.not_not, and_assoc]
  rw [hiff]
  exact ⟨fun ⟨h₁, h₂, h₃, h₄⟩ => ⟨h₁, h₂, h₃, h₄⟩, fun h => ⟨h.1, h.2, h.3, h.4⟩⟩

theorem spelled_concat (host : Str) (ms : List Str) (m : Str) :
    spelled host (ms ++ [m]) = (host ++ ms.flatMap fun m => '.' :: m) ++ '.' :: m ++ ['.'] := by
  simp [spelled]

theorem SuffixFree.eq_of_append (hfree : SuffixFree snap) {y m' : Str} (hm : DotlessMember snap m)
    (hm' : DotlessMember snap m') (h : x ++ '.' :: m = y ++ '.' :: m') : x = y ∧ m = m' := by
  have hbelow : AtOrBelow (x ++ '.' :: m) m := Or.inr (List.suffix_append _ _)
  have hbelow' : AtOrBelow (x ++ '.' :: m) m' := Or.inr (h ▸ List.suffix_append _ _)
  obtain rfl : m = m' := by
    rcases AtOrBelow.total hbelow hbelow' with hle | hle
    · exact hfree m m' hm hm' hle
    · exact (hfree m' m hm' hm hle).symm
  exact ⟨List.append_cancel_right h, rfl⟩

theorem member_of_stripOne {isLocal : Bool} (h : stripOne snap cur = some (rest, isLocal)) :
    ∃ x m, DotlessMember snap m ∧ cur = x ++ '.' :: m ++ ['.'] ∧ rest = x ++ ['.'] ∧
      (isLocal = true → LocalMember snap m) := by
  unfold stripOne at h
  split at h
  next h' hloc =>
    cases h
    obtain ⟨x, hx, rfl⟩ := stripMember_eq_some.mp hloc
    exact ⟨x, _, Or.inl (Or.inl rfl), hx, rfl, fun _ => Or.inl rfl⟩
  next =>
    split at h
    next h' hdom =>
      cases h
      split_ifs at hdom with hne
      obtain ⟨x, hx, rfl⟩ := stripMember_eq_some.mp hdom
      exact ⟨x, _, Or.inl (Or.inr ⟨hne, rfl⟩), hx, rfl, fun _ => Or.inr ⟨hne, rfl⟩⟩
    next =>
      dsimp only at h
      split_ifs at h with hne
      obtain ⟨h', hstrip, he⟩ := Option.map_eq_some_iff.mp h
      obtain ⟨rfl, rfl⟩ := Prod.mk.inj he
      obtain ⟨x, hx, rfl⟩ := stripMember_eq_some.mp hstrip
      have hmem := ((longestSuffix_cases cur snap.zones.keys).resolve_left hne).1
      have hdot : ['.'] <:+ cur := hx ▸ List.suffix_append _ _
      have hapex := trimSuffix_dot_append hdot suffix_of_longestSuffix hne
      exact ⟨x, _, Or.inr (hapex.symm ▸ AList.mem_keys.mpr hmem), hx, rfl, nofun⟩

theorem SuffixFree.stripMember_apex (hfree : SuffixFree snap) (hm : m ++ ['.'] ∈ snap.zones) :
    longestZoneSuffix (x ++ '.' :: m ++ ['.']) snap.zones ≠ [] ∧
      (stripMember (x ++ '.' :: m ++ ['.'])
        (trimSuffix (longestZoneSuffix (x ++ '.' :: m ++ ['.']) snap.zones) ['.'])).isSome =
        true := by
  set cur := x ++ '.' :: m ++ ['.'] with hcur
  have hbelow : AtOrBelow cur (m ++ ['.']) := Or.inr ⟨x, by simp [hcur]⟩
  have hlen := length_le_longestSuffix (AList.mem_keys.mp hm) hbelow
  have hne : longestZoneSuffix cur snap.zones ≠ [] := by
    intro hnil
    rw [← longestZoneSuffix, hnil] at hlen
    simp at hlen
  refine ⟨hne, ?_⟩
  obtain ⟨hmem, habove⟩ := (longestSuffix_cases cur snap.zones.keys).resolve_left hne
  have hapex : trimSuffix (longestZoneSuffix cur snap.zones) ['.'] ++ ['.'] =
      longestZoneSuffix cur snap.zones :=
    trimSuffix_dot_append (List.suffix_append _ _) suffix_of_longestSuffix hne
  rcases habove with hwhole | ⟨y, hy⟩
  · -- the member would be a suffix of the apex
    have ha : trimSuffix (longestZoneSuffix cur snap.zones) ['.'] = x ++ '.' :: m :=
      List.append_cancel_right (hapex.trans hwhole.symm)
    have hmem' : DotlessMember snap (x ++ '.' :: m) :=
      Or.inr (hwhole.symm ▸ AList.mem_keys.mpr hmem : cur ∈ snap.zones)
    have heq := hfree _ m hmem' (Or.inr hm) (Or.inr (List.suffix_append _ _))
    have := congrArg List.length heq
    simp at this
    omega
  · rw [Option.isSome_iff_exists]
    refine ⟨y ++ ['.'], stripMember_eq_some.mpr ⟨y, ?_, rfl⟩⟩
    rw [List.append_assoc, List.cons_append, hapex]
    exact hy.symm

theorem SuffixFree.stripOne_isSome (hfree : SuffixFree snap) (hm : DotlessMember snap m) :
    (stripOne snap (x ++ '.' :: m ++ ['.'])).isSome = true := by
  have hstrip : stripMember (x ++ '.' :: m ++ ['.']) m = some (x ++ ['.']) :=
    stripMember_eq_some.mpr ⟨x, rfl, rfl⟩
  unfold stripOne
  split
  · rfl
  next hloc =>
    split
    · rfl
    next hdom =>
      rcases hm with (rfl | ⟨hne, rfl⟩) | hm
      · rw [hstrip] at hloc
        cases hloc
      · rw [if_pos hne, hstrip] at hdom
        cases hdom
      · obtain ⟨hne, hsome⟩ := hfree.stripMember_apex hm (x := x)
        dsimp only
        rw [if_pos hne, Option.isSome_map]
        exact hsome

theorem isLocal_of_stripOne {isLocal : Bool} (hm : LocalMember snap m)
    (h : stripOne snap (x ++ '.' :: m ++ ['.']) = some (rest, isLocal)) : isLocal = true := by
  have hstrip : stripMember (x ++ '.' :: m ++ ['.']) m = some (x ++ ['.']) :=
    stripMember_eq_some.mpr ⟨x, rfl, rfl⟩
  unfold stripOne at h
  split at h
  · cases h
    rfl
  next hloc =>
    split at h
    · cases h
      rfl
    next hdom =>
      rcases hm with rfl | ⟨hne, rfl⟩
      · rw [hstrip] at hloc
        cases hloc
      · rw [if_pos hne, hstrip] at hdom
        cases hdom

theorem SuffixFree.stripOne_append (hfree : SuffixFree snap) (hm : DotlessMember snap m) :
    stripOne snap (x ++ '.' :: m ++ ['.']) = some (x ++ ['.'], decide (LocalMember snap m)) := by
  obtain ⟨⟨rest, isLocal⟩, hone⟩ := Option.isSome_iff_exists.mp (hfree.stripOne_isSome hm (x := x))
  obtain ⟨y, m', hm', hcur, rfl, hloc⟩ := member_of_stripOne hone
  obtain ⟨rfl, rfl⟩ := hfree.eq_of_append hm hm' (List.append_cancel_right hcur)
  have hflag : isLocal = decide (LocalMember snap m) := by
    rw [Bool.eq_iff_iff, decide_eq_true_eq]
    exact ⟨hloc, fun h => isLocal_of_stripOne h hone⟩
  rw [hone, hflag]

theorem SuffixFree.stripAll_spelled (hfree : SuffixFree snap) (hdot : '.' ∉ host) {n : ℕ}
    (hms : ∀ m ∈ ms, DotlessMember snap m) (hlen : ms.length ≤ n) (tainted stripped : Bool) :
    stripAll snap n (spelled host ms, tainted, stripped) =
      (host ++ ['.'], tainted || ms.any fun m => LocalMember snap m, stripped || ms ≠ []) := by
  -- the last member goes first, so the members are taken from the end
  induction ms using List.reverseRecOn generalizing n tainted stripped with
  | nil =>
    have hname : spelled host [] = host ++ ['.'] := by simp [spelled]
    rw [hname, stripAll_of_none (stripOne_single hdot)]
    simp
  | append_singleton ms m ih =>
    cases n with
    | zero => simp at hlen
    | succ n =>
      have hone := hfree.stripOne_append (x := host ++ ms.flatMap fun m => '.' :: m)
        (hms m (by simp))
      rw [spelled_concat, stripAll_of_some hone]
      have hrest := ih (n := n) (fun m hm => hms m (List.mem_append_left _ hm))
        (by simpa using hlen) (tainted || decide (LocalMember snap m)) true
      rw [spelled] at hrest
      rw [hrest]
      simp [Bool.or_assoc, Bool.or_comm]

theorem SuffixFree.exists_of_stripAll (hfree : SuffixFree snap) {n : ℕ} {tainted stripped : Bool}
    {out : Str × Bool × Bool} (h : stripAll snap n (cur, tainted, stripped) = out) :
    out = (cur, tainted, stripped) ∨
      ∃ y ms, ms ≠ [] ∧ ms.length ≤ n ∧ (∀ m ∈ ms, DotlessMember snap m) ∧ cur = spelled y ms ∧
        out = (y ++ ['.'], tainted || ms.any fun m => LocalMember snap m, true) := by
  induction n generalizing cur tainted stripped with
  | zero => exact Or.inl h.symm
  | succ n ih =>
    rcases hone : stripOne snap cur with _ | ⟨rest, isLocal⟩
    · rw [stripAll_of_none hone] at h
      exact Or.inl h.symm
    · rw [stripAll_of_some hone] at h
      obtain ⟨x, m, hm, rfl, rfl, -⟩ := member_of_stripOne hone
      rw [hfree.stripOne_append hm] at hone
      obtain ⟨-, rfl⟩ := Prod.mk.inj (Option.some.inj hone)
      rcases ih h with rfl | ⟨y, ms, -, hlen, hms, hrest, rfl⟩
      · refine Or.inr ⟨x, [m], by simp, by simp, by simpa using hm, by simp [spelled], ?_⟩
        simp
      · refine Or.inr ⟨y, ms ++ [m], by simp, by simpa using hlen, ?_, ?_, ?_⟩
        · intro m' hm'
          rcases List.mem_append.mp hm' with hm' | hm'
          · exact hms m' hm'
          · rw [List.mem_singleton.mp hm']
            exact hm
        · rw [spelled_concat]
          rw [spelled] at hrest
          rw [List.append_cancel_right hrest]
        · simp [Bool.or_assoc, Bool.or_comm]

/-- A host is recovered from exactly the names that spell it with one to eight members, and the
spelling is tainted if one of them is a local suffix. -/
theorem recoverLocalHost_iff (snap : Snapshot) (hfree : SuffixFree snap) (name host : Str)
    (tainted : Bool) :
    recoverLocalHost snap name = ⟨some host, tainted⟩ ↔
      HostLabel snap host ∧ ∃ ms : List Str, 1 ≤ ms.length ∧ ms.length ≤ 8 ∧
        (∀ m ∈ ms, DotlessMember snap m) ∧ name = spelled host ms ∧
        (tainted = true ↔ ∃ m ∈ ms, LocalMember snap m) := by
  constructor
  · intro h
    rw [recoverLocalHost] at h
    dsimp only at h
    rcases hfree.exists_of_stripAll (Eq.refl (stripAll snap 8 (name, false, false))) with
      hsame | ⟨y, ms, hne, hlen, hms, rfl, hall⟩
    · rw [hsame] at h
      cases h
    · simp only [hall, Bool.not_true, Bool.false_eq_true, if_false, Bool.false_or,
        trimSuffix_append, Recovered.mk.injEq] at h
      obtain ⟨hlabel, rfl⟩ := h
      split_ifs at hlabel with hhost
      cases hlabel
      exact ⟨isHostLabel_iff.mp hhost, ms, List.length_pos_iff.mpr hne, hlen, hms, rfl, by simp⟩
  · rintro ⟨hhost, ms, hpos, hlen, hms, rfl, htaint⟩
    have hne : ms ≠ [] := List.length_pos_iff.mp hpos
    have hflag : tainted = ms.any fun m => LocalMember snap m := by
      rw [Bool.eq_iff_iff, htaint]
      simp
    rw [recoverLocalHost, hfree.stripAll_spelled hhost.dot hms hlen]
    simp [hne, trimSuffix_append, isHostLabel_iff.mpr hhost, hflag]

/-- A site with a local domain and one zone, none of them under another. -/
def oneZoneSite : Snapshot :=
  { localDomain := "lan".toList, zones := Map.ofList [("example.com.".toList, none)] }

theorem oneZoneSite_members (h : DotlessMember oneZoneSite m) :
    m ∈ ["local".toList, "lan".toList, "example.com".toList] := by
  rcases h with (rfl | ⟨-, rfl⟩) | h
  · decide
  · decide
  · have hkey : m ++ ['.'] = "example.com".toList ++ ['.'] :=
      List.mem_singleton.mp (AList.mem_keys.mp h)
    rw [List.append_cancel_right hkey]
    decide

theorem oneZoneSite_suffixFree : SuffixFree oneZoneSite := by
  intro m m' hm hm'
  have hall : ∀ m ∈ ["local".toList, "lan".toList, "example.com".toList],
      ∀ m' ∈ ["local".toList, "lan".toList, "example.com".toList], AtOrBelow m m' → m = m' := by
    decide
  exact hall m (oneZoneSite_members hm) m' (oneZoneSite_members hm')

/-- A host with a local suffix and an apex behind it is recovered, and its name is tainted. -/
theorem recoverLocalHost_oneZoneSite :
    recoverLocalHost oneZoneSite "nas.lan.example.com.".toList = ⟨some "nas".toList, true⟩ :=
  (recoverLocalHost_iff oneZoneSite oneZoneSite_suffixFree _ _ _).mpr
    ⟨⟨by decide, by decide, by decide, by decide⟩, ["lan".toList, "example.com".toList], by decide,
      by decide, by decide, rfl, by decide⟩

end SplitDNS.Resolver
