import SplitDNS.Dns.Labels
import SplitDNS.Resolver.Local

/-! # Names, owners and suffix stripping

What the resolver's string functions compute, as statements about concatenated
labels: the longest apex above a name, the owner relative to it, and the members
that the stripping loop takes off the end of a name.
-/

namespace SplitDNS.Resolver

open Go Go.Strings Dns Model

variable {snap : Snapshot} {name apex owner member : Str}

theorem isSuffixLabel_iff : isSuffixLabel name apex = true ↔ AtOrBelow name apex := by
  simp [isSuffixLabel, AtOrBelow, hasSuffix]

section Longest

variable {apexes : List Str}

theorem longestSuffix_cases (name : Str) (apexes : List Str) :
    longestSuffix name apexes = [] ∨
      longestSuffix name apexes ∈ apexes ∧ AtOrBelow name (longestSuffix name apexes) := by
  unfold longestSuffix
  refine List.foldlRecOn apexes _ (motive := fun best => best = [] ∨ best ∈ apexes ∧
    AtOrBelow name best) (Or.inl rfl) fun best hbest apex hapex => ?_
  split_ifs with h
  · rw [Bool.and_eq_true, isSuffixLabel_iff] at h
    exact Or.inr ⟨hapex, h.1⟩
  · exact hbest

theorem length_le_longestSuffix (h : apex ∈ apexes) (ha : AtOrBelow name apex) :
    apex.length ≤ (longestSuffix name apexes).length := by
  suffices H : ∀ (l : List Str) (best : Str), (apex ∈ l ∨ apex.length ≤ best.length) →
      apex.length ≤ (l.foldl (fun best apex =>
        if isSuffixLabel name apex && best.length < apex.length then apex else best) best).length by
    exact H apexes [] (Or.inl h)
  intro l
  induction l with
  | nil => simp
  | cons b l ih =>
    intro best hb
    rw [List.foldl_cons]
    apply ih
    rcases hb with hb | hb
    · rcases List.mem_cons.mp hb with rfl | hb
      · right
        split_ifs with hlt
        · exact le_rfl
        · simpa [isSuffixLabel_iff.mpr ha] using hlt
      · exact Or.inl hb
    · right
      split_ifs with hlt
      · simp only [Bool.and_eq_true, decide_eq_true_eq] at hlt
        omega
      · exact hb

end Longest

theorem relativeOwner_append (owner apex : Str) :
    relativeOwner (owner ++ '.' :: apex) apex = owner := by
  have hne : owner ++ '.' :: apex ≠ apex := by
    intro h
    have := congrArg List.length h
    simp at this
    omega
  rw [relativeOwner, if_neg hne, show owner ++ '.' :: apex = (owner ++ ['.']) ++ apex by simp,
    trimSuffix_append, trimSuffix_append]

theorem relativeOwner_self (apex : Str) : relativeOwner apex apex = [] := if_pos rfl

theorem stripMember_eq_some {h : Str} :
    stripMember name member = some h ↔
      ∃ x, name = x ++ '.' :: member ++ ['.'] ∧ h = x ++ ['.'] := by
  unfold stripMember hasSuffix
  simp only [decide_eq_true_eq, Option.ite_none_right_eq_some, Option.some.injEq]
  constructor
  · rintro ⟨⟨x, rfl⟩, rfl⟩
    refine ⟨x, by simp, ?_⟩
    have : x ++ '.' :: (member ++ ['.']) = (x ++ ['.']) ++ (member ++ ['.']) := by simp
    rw [this, List.take_left']
    simp
    omega
  · rintro ⟨x, rfl, rfl⟩
    refine ⟨⟨x, by simp⟩, ?_⟩
    have : x ++ '.' :: member ++ ['.'] = (x ++ ['.']) ++ (member ++ ['.']) := by simp
    rw [this, List.take_left']
    simp
    omega

theorem localLabel_eq_none_iff :
    localLabel snap name = none ↔ ¬ ".local.".toList <:+ name ∧
      (snap.localDomain ≠ [] → ¬ '.' :: snap.localDomain ++ ['.'] <:+ name) := by
  have h₁ := @trimSuffix_ne_iff name ".local.".toList (by decide)
  have h₂ := @trimSuffix_ne_iff name ('.' :: snap.localDomain ++ ['.']) (by simp)
  unfold localLabel
  dsimp only
  split_ifs with hloc hdom hne
  · exact iff_of_false (by simp) fun h => h.1 (h₁.mp hloc)
  · exact iff_of_false (by simp) fun h => h.2 hdom (h₂.mp hne)
  · exact iff_of_true rfl ⟨fun h => hloc (h₁.mpr h), fun _ h => hne (h₂.mpr h)⟩
  · exact iff_of_true rfl ⟨fun h => hloc (h₁.mpr h), fun h => absurd h hdom⟩

theorem stripMember_eq_none (h : ¬ '.' :: member ++ ['.'] <:+ name) :
    stripMember name member = none := by
  rw [stripMember, if_neg]
  simpa [hasSuffix] using h

theorem stripMember_single {label : Str} (h : '.' ∉ label) :
    stripMember (label ++ ['.']) member = none := by
  refine Option.eq_none_iff_forall_ne_some.mpr fun x hx => ?_
  obtain ⟨y, hy, -⟩ := stripMember_eq_some.mp hx
  obtain rfl := List.append_cancel_right hy
  simp at h

theorem stripOne_single {label : Str} (h : '.' ∉ label) :
    stripOne snap (label ++ ['.']) = none := by
  simp only [stripOne, stripMember_single h, ite_self, Option.map_none]

theorem stripOne_of_localLabel_none (hl : localLabel snap name = none) :
    stripOne snap name =
      if longestZoneSuffix name snap.zones ≠ [] then
        (stripMember name (trimSuffix (longestZoneSuffix name snap.zones) ['.'])).map (·, false)
      else none := by
  obtain ⟨h₁, h₂⟩ := localLabel_eq_none_iff.mp hl
  have hld :
      (if snap.localDomain ≠ [] then stripMember name snap.localDomain else none) = none := by
    split_ifs with hd
    · exact stripMember_eq_none (h₂ hd)
    · rfl
  have hloc : stripMember name "local".toList = none := stripMember_eq_none h₁
  simp only [stripOne, hloc, hld]

theorem stripAll_of_none {passes : ℕ} {s : Str × Bool × Bool} (h : stripOne snap s.1 = none) :
    stripAll snap passes s = s := by
  cases passes with
  | zero => rfl
  | succ n => rw [stripAll, h]

theorem stripAll_of_some {passes : ℕ} {s : Str × Bool × Bool} {rest : Str} {isLocal : Bool}
    (h : stripOne snap s.1 = some (rest, isLocal)) :
    stripAll snap (passes + 1) s = stripAll snap passes (rest, s.2.1 || isLocal, true) := by
  rw [stripAll, h]

theorem trimSuffix_dot_append (hn : ['.'] <:+ name) (ha : apex <:+ name) (hne : apex ≠ []) :
    trimSuffix apex ['.'] ++ ['.'] = apex := by
  refine trimSuffix_append_of_suffix ?_
  refine List.suffix_of_suffix_length_le hn ha ?_
  exact List.length_pos_iff.mpr hne

theorem suffix_of_longestSuffix {apexes : List Str} : longestSuffix name apexes <:+ name := by
  rcases longestSuffix_cases name apexes with h | ⟨-, h⟩
  · rw [h]
    exact List.nil_suffix
  · exact h.suffix

theorem stripAll_tainted (ht : (recoverLocalHost snap name).tainted = true) :
    (stripAll snap 8 (name, false, false)).2.1 = true := by
  unfold recoverLocalHost at ht
  dsimp only at ht
  split at ht
  · cases ht
  · exact ht

theorem stripOne_eq_some_iff {rest : Str} {isLocal : Bool} (hn : ['.'] <:+ name)
    (hl : localLabel snap name = none) : stripOne snap name = some (rest, isLocal) ↔
      longestZoneSuffix name snap.zones ≠ [] ∧
        (∃ x, name = x ++ '.' :: longestZoneSuffix name snap.zones ∧ rest = x ++ ['.']) ∧
        isLocal = false := by
  have hdot := fun hne => @trimSuffix_dot_append name _ hn
    (@suffix_of_longestSuffix name snap.zones.keys) hne
  rw [stripOne_of_localLabel_none hl]
  split_ifs with hne
  · rw [Option.map_eq_some_iff, and_iff_right hne]
    have hname : ∀ x, x ++ '.' :: trimSuffix (longestZoneSuffix name snap.zones) ['.'] ++ ['.'] =
        x ++ '.' :: longestZoneSuffix name snap.zones := by
      intro x
      rw [List.append_assoc, List.cons_append]
      exact congrArg (x ++ '.' :: ·) (hdot hne)
    constructor
    · rintro ⟨h, hstrip, he⟩
      obtain ⟨rfl, rfl⟩ := Prod.mk.inj he
      obtain ⟨x, hx, rfl⟩ := stripMember_eq_some.mp hstrip
      exact ⟨⟨x, hx.trans (hname x), rfl⟩, rfl⟩
    · rintro ⟨⟨x, hx, rfl⟩, rfl⟩
      exact ⟨_, stripMember_eq_some.mpr ⟨x, hx.trans (hname x).symm, rfl⟩, rfl⟩
  · exact iff_of_false (by simp) fun h => hne h.1

theorem dot_mem_owner_of_tainted (hn : ['.'] <:+ name) (hl : localLabel snap name = none)
    (ht : (recoverLocalHost snap name).tainted = true) :
    '.' ∈ relativeOwner name (longestZoneSuffix name snap.zones) := by
  by_contra hdot
  have ht := stripAll_tainted ht
  rcases hs : stripOne snap name with _ | ⟨h, b⟩
  · rw [stripAll_of_none hs] at ht
    cases ht
  · obtain ⟨-, ⟨x, hx, rfl⟩, rfl⟩ := (stripOne_eq_some_iff hn hl).mp hs
    generalize longestZoneSuffix name snap.zones = apex at hx hdot
    rw [hx, relativeOwner_append] at hdot
    have hrest : stripOne snap (x ++ ['.'], false || false, true).1 = none := stripOne_single hdot
    rw [stripAll_of_some hs, stripAll_of_none hrest] at ht
    cases ht

section Below

variable {n d x label : Str}

def Member (snap : Snapshot) (m : Str) : Prop :=
  m = "local.".toList ∨ (snap.localDomain ≠ [] ∧ m = snap.localDomain ++ ['.']) ∨ m ∈ snap.zones

theorem localLabel_eq_none_iff_member : localLabel snap name = none ↔
    ¬ '.' :: "local.".toList <:+ name ∧
      (snap.localDomain ≠ [] → ¬ '.' :: (snap.localDomain ++ ['.']) <:+ name) :=
  localLabel_eq_none_iff

theorem localLabel_eq_none_of_below (hbelow : '.' :: n <:+ d) (hn : localLabel snap n = none)
    (hcut : ∀ m, Member snap m → AtOrBelow d m → ¬ AtOrBelow m n) : localLabel snap d = none := by
  have key : ∀ m, Member snap m → ¬ '.' :: m <:+ n → ¬ '.' :: m <:+ d := by
    intro m hm hnm hdm
    have hnot := hcut m hm (Or.inr hdm)
    rcases AtOrBelow.total (Or.inr hbelow) (Or.inr hdm) with (rfl | h) | h
    · exact hnot (Or.inl rfl)
    · exact hnm h
    · exact hnot h
  rw [localLabel_eq_none_iff_member] at hn ⊢
  exact ⟨key _ (Or.inl rfl) hn.1, fun hd => key _ (Or.inr (Or.inl ⟨hd, rfl⟩)) (hn.2 hd)⟩

theorem longestZoneSuffix_eq_of_below (hbelow : '.' :: n <:+ d)
    (hne : longestZoneSuffix n snap.zones ≠ [])
    (hcut : ∀ m, Member snap m → AtOrBelow d m → ¬ AtOrBelow m n) :
    longestZoneSuffix d snap.zones = longestZoneSuffix n snap.zones := by
  have hn := (longestSuffix_cases n snap.zones.keys).resolve_left hne
  have hdn : AtOrBelow d (longestZoneSuffix n snap.zones) := AtOrBelow.trans (Or.inr hbelow) hn.2
  have hle := length_le_longestSuffix hn.1 hdn
  have hd : longestZoneSuffix d snap.zones ∈ snap.zones.keys ∧
      AtOrBelow d (longestZoneSuffix d snap.zones) := by
    refine (longestSuffix_cases d snap.zones.keys).resolve_left fun h => hne ?_
    rw [h, List.length_nil, Nat.le_zero, List.length_eq_zero_iff] at hle
    exact hle
  have hnd : AtOrBelow n (longestZoneSuffix d snap.zones) :=
    (AtOrBelow.total (Or.inr hbelow) hd.2).resolve_right
      (hcut _ (Or.inr (Or.inr (AList.mem_keys.mpr hd.1))) hd.2)
  have hge := length_le_longestSuffix hd.1 hnd
  exact List.IsSuffix.eq_of_length
    (List.suffix_of_suffix_length_le hd.2.suffix hdn.suffix hge) (le_antisymm hge hle)

theorem localLabel_eq_some (h : localLabel snap n = some label) :
    n = label ++ ".local.".toList ∨
      snap.localDomain ≠ [] ∧ ¬ ".local.".toList <:+ n ∧
        n = label ++ ('.' :: snap.localDomain ++ ['.']) := by
  have h₁ := @trimSuffix_ne_iff n ".local.".toList (by decide)
  have h₂ := @trimSuffix_ne_iff n ('.' :: snap.localDomain ++ ['.']) (by simp)
  unfold localLabel at h
  dsimp only at h
  split_ifs at h with hloc hdom hne
  · cases h
    exact Or.inl (trimSuffix_append_of_suffix (h₁.mp hloc)).symm
  · cases h
    exact Or.inr ⟨hdom, fun h => hloc (h₁.mpr h), (trimSuffix_append_of_suffix (h₂.mp hne)).symm⟩

theorem localLabel_append_local : localLabel snap (label ++ ".local.".toList) = some label := by
  have hne : label ≠ label ++ ".local.".toList := by simp
  rw [localLabel, trimSuffix_append, if_pos hne]

theorem localLabel_append_domain (hd : snap.localDomain ≠ [])
    (hl : ¬ ".local.".toList <:+ label ++ ('.' :: snap.localDomain ++ ['.'])) :
    localLabel snap (label ++ ('.' :: snap.localDomain ++ ['.'])) = some label := by
  have hne : label ≠ label ++ ('.' :: snap.localDomain ++ ['.']) := by simp
  rw [localLabel, trimSuffix_of_not_suffix hl, if_neg (not_not_intro rfl), if_pos hd,
    trimSuffix_append, if_pos hne]

theorem localLabel_of_below (h : localLabel snap n = some label) :
    localLabel snap (x ++ '.' :: n) = some (x ++ '.' :: label) := by
  rcases localLabel_eq_some h with rfl | ⟨hd, hl, rfl⟩
  · rw [← List.cons_append, ← List.append_assoc]
    exact localLabel_append_local
  · set n := label ++ ('.' :: snap.localDomain ++ ['.']) with hn
    have hshort : ¬ '.' :: (snap.localDomain ++ ['.']) <:+ "local.".toList := fun hs => by
      have := suffix_of_dot_suffix (show '.' ∉ "local".toList by decide)
        (show _ <:+ "local".toList ++ '.' :: [] from hs)
      simp at this
    have hsub : '.' :: (snap.localDomain ++ ['.']) <:+ n := List.suffix_append _ _
    have hnot : ¬ ".local.".toList <:+ x ++ '.' :: n := by
      intro hloc
      rcases AtOrBelow.total (Or.inr (List.suffix_append x ('.' :: n)))
        (Or.inr (show '.' :: "local.".toList <:+ _ from hloc)) with (h | h) | h
      · exact hshort (h ▸ hsub)
      · exact hl h
      · rcases h with h | h
        · exact hshort (h ▸ hsub)
        · exact hshort (hsub.trans ((List.suffix_cons _ _).trans h))
    have happ : x ++ '.' :: n = (x ++ '.' :: label) ++ ('.' :: snap.localDomain ++ ['.']) := by
      simp [hn]
    rw [happ] at hnot ⊢
    exact localLabel_append_domain hd hnot

theorem stripAll_keeps {passes : ℕ} {s : Str × Bool × Bool} (ht : s.2.1 = true)
    (hs : s.2.2 = true) :
    (stripAll snap passes s).2.1 = true ∧ (stripAll snap passes s).2.2 = true := by
  induction passes generalizing s with
  | zero => exact ⟨ht, hs⟩
  | succ passes ih =>
    unfold stripAll
    split
    · exact ih (by simp [ht]) rfl
    · exact ⟨ht, hs⟩

theorem stripOne_of_localLabel (h : localLabel snap name = some label) :
    stripOne snap name = some (label ++ ['.'], true) := by
  rcases localLabel_eq_some h with rfl | ⟨hd, hl, rfl⟩
  · have hstrip : stripMember (label ++ ".local.".toList) "local".toList = some (label ++ ['.']) :=
      stripMember_eq_some.mpr ⟨label, by simp, rfl⟩
    rw [stripOne, hstrip]
  · have hloc : stripMember (label ++ ('.' :: snap.localDomain ++ ['.'])) "local".toList = none :=
      stripMember_eq_none hl
    have hstrip : stripMember (label ++ ('.' :: snap.localDomain ++ ['.'])) snap.localDomain =
        some (label ++ ['.']) := stripMember_eq_some.mpr ⟨label, by simp, rfl⟩
    rw [stripOne, hloc, if_pos hd, hstrip]

theorem tainted_of_localLabel (h : localLabel snap name = some label) :
    (recoverLocalHost snap name).tainted = true := by
  have hone := stripOne_of_localLabel h
  have hall := @stripAll_keeps snap 7 (label ++ ['.'], false || true, true) rfl rfl
  rw [← stripAll_of_some (s := (name, false, false)) hone] at hall
  simp only [recoverLocalHost, hall.1, hall.2, Bool.not_true, Bool.false_eq_true, if_false]

end Below

end SplitDNS.Resolver
