import Mathlib.Data.List.MinMax
import SplitDNS.Resolver.Resolve

/-! # The canonical reverse name

Several hosts may claim one address, and the reverse view lists them in the order
of a map. The pointer record names the least of them, where machine identifiers
come after host names, so the order of the list does not matter.
-/

namespace SplitDNS.Resolver

open Go Go.Strings Dns Model

variable {ptrs ptrs' : List Model.RR} {r : Model.RR} {host : Str}

def pointsTo (r : Model.RR) : Str := if r.target = [] then r.content else r.target

def NamesHost (r : Model.RR) (host : Str) : Prop :=
  host ≠ [] ∧ pointsTo r = host ++ ".local.".toList

instance : Decidable (NamesHost r host) := inferInstanceAs (Decidable (_ ∧ _))

/-- Host names in front of machine identifiers, and in lexical order among themselves. -/
def canonicalRank (host : Str) : Bool ×ₗ Str := toLex (looksLikeID host, host)

/-- The local suffix that reverse names are given under. -/
def canonicalSuffix (localDomain : Str) : Str :=
  if localDomain ≠ [] then '.' :: localDomain ++ ['.'] else ".local.".toList

theorem betterCanonical_iff {best : Str} :
    betterCanonical host best = true ↔ canonicalRank host < canonicalRank best := by
  rw [canonicalRank, canonicalRank, Prod.Lex.toLex_lt_toLex, betterCanonical]
  rcases looksLikeID host with _ | _ <;> rcases looksLikeID best with _ | _ <;> simp

/-- The host of an entry and its lifetime, if it names one. -/
def candidate (r : Model.RR) : Option (Str × UInt32) :=
  let host := trimSuffix (pointsTo r) ".local.".toList
  if host = pointsTo r || host = [] then none else some (host, r.ttl)

theorem candidate_eq_some {p : Str × UInt32} :
    candidate r = some p ↔ NamesHost r p.1 ∧ p.2 = r.ttl := by
  obtain ⟨host, ttl⟩ := p
  have hne := @trimSuffix_ne_iff (pointsTo r) ".local.".toList (by decide)
  unfold candidate NamesHost
  dsimp only
  split_ifs with h
  · simp only [false_iff, not_and]
    rintro ⟨hhost, htarget⟩ -
    rw [htarget, trimSuffix_append] at h
    simp [hhost] at h
  · simp only [Bool.or_eq_true, decide_eq_true_eq, not_or] at h
    rw [Option.some.injEq, Prod.mk.injEq]
    constructor
    · rintro ⟨rfl, rfl⟩
      exact ⟨⟨h.2, (trimSuffix_append_of_suffix (hne.mp h.1)).symm⟩, rfl⟩
    · rintro ⟨⟨-, htarget⟩, rfl⟩
      rw [htarget, trimSuffix_append]
      exact ⟨rfl, rfl⟩

/-- The least of the hosts that are named, with its lifetime. -/
def leastHost (ptrs : List Model.RR) : Option (Str × UInt32) :=
  (ptrs.filterMap candidate).argmin fun p => canonicalRank p.1

theorem leastHost_ne_nil {p : Str × UInt32} (h : leastHost ptrs = some p) : p.1 ≠ [] := by
  obtain ⟨r, -, hr⟩ := List.mem_filterMap.mp (List.argmin_mem h)
  exact (candidate_eq_some.mp hr).1.1

theorem leastHost_concat (ptrs : List Model.RR) (r : Model.RR) : leastHost (ptrs ++ [r]) =
    (candidate r).elim (leastHost ptrs) fun p =>
      (leastHost ptrs).elim (some p) fun best =>
        if canonicalRank p.1 < canonicalRank best.1 then some p else some best := by
  rw [leastHost, List.filterMap_append]
  rcases hc : candidate r with _ | p
  · simp [hc, leastHost]
  · have hlast : [r].filterMap candidate = [p] := by simp [hc]
    rw [hlast, List.argmin_concat, ← leastHost]
    rcases leastHost ptrs with _ | best <;> rfl

theorem canonicalHost_concat (ptrs : List Model.RR) (r : Model.RR) : canonicalHost (ptrs ++ [r]) =
    (candidate r).elim (canonicalHost ptrs) fun p =>
      if (canonicalHost ptrs).1 = [] || betterCanonical p.1 (canonicalHost ptrs).1 then p
      else canonicalHost ptrs := by
  rw [canonicalHost, List.foldl_append, List.foldl_cons, List.foldl_nil, ← canonicalHost, candidate]
  dsimp only
  rw [← pointsTo]
  by_cases h : (decide (trimSuffix (pointsTo r) ".local.".toList = pointsTo r) ||
      decide (trimSuffix (pointsTo r) ".local.".toList = [])) = true
  · rw [if_pos h, if_pos h]
    rfl
  · rw [if_neg h, if_neg h]
    rfl

theorem canonicalHost_eq (ptrs : List Model.RR) :
    canonicalHost ptrs = (leastHost ptrs).getD ([], 0) := by
  induction ptrs using List.reverseRecOn with
  | nil => rfl
  | append_singleton ptrs r ih =>
    rw [canonicalHost_concat, leastHost_concat, ih]
    rcases candidate r with _ | p
    · rfl
    rcases hbest : leastHost ptrs with _ | best
    · rfl
    · have hne := leastHost_ne_nil hbest
      simp only [Option.elim_some, Option.getD_some, hne, decide_false, Bool.false_or,
        betterCanonical_iff]
      split_ifs <;> rfl

theorem canonicalReversePTR_eq (ptrs : List Model.RR) (name localDomain : Str) :
    canonicalReversePTR ptrs name localDomain = (leastHost ptrs).map fun p =>
      ⟨⟨name, typePTR, classINET, if p.2 = 0 then 120 else p.2⟩,
        .ptr (p.1 ++ canonicalSuffix localDomain)⟩ := by
  rw [canonicalReversePTR, canonicalHost_eq]
  rcases hbest : leastHost ptrs with _ | best
  · rfl
  · dsimp only [Option.getD_some]
    rw [if_neg (leastHost_ne_nil hbest)]
    rfl

theorem canonicalRank_injective : Function.Injective canonicalRank := by
  intro host host' h
  exact congrArg (fun p => (ofLex p).2) h

theorem eq_of_namesHost (hnd : (ptrs.map pointsTo).Nodup) {r' : Model.RR} (hr : r ∈ ptrs)
    (hr' : r' ∈ ptrs) (h : NamesHost r host) (h' : NamesHost r' host) : r = r' :=
  List.inj_on_of_nodup_map hnd hr hr' (h.2.trans h'.2.symm)

theorem leastHost_of_perm (hnd : (ptrs.map pointsTo).Nodup) (hperm : ptrs'.Perm ptrs) :
    leastHost ptrs' = leastHost ptrs := by
  have hcand := hperm.filterMap candidate
  rcases hbest : leastHost ptrs with _ | p
  · rw [leastHost, List.argmin_eq_none] at hbest ⊢
    rw [hbest] at hcand
    exact List.perm_nil.mp hcand
  rcases hbest' : leastHost ptrs' with _ | p'
  · rw [leastHost, List.argmin_eq_none] at hbest'
    have hp := hcand.mem_iff.mpr (List.argmin_mem hbest)
    rw [hbest'] at hp
    cases hp
  · -- each is the least of the same hosts, and a host has one lifetime
    have hp := List.argmin_mem hbest
    have hp' := hcand.mem_iff.mp (List.argmin_mem hbest')
    have hle := List.le_of_mem_argmin hp' hbest
    have hle' := List.le_of_mem_argmin (hcand.mem_iff.mpr hp) hbest'
    have hhost : p'.1 = p.1 := canonicalRank_injective (le_antisymm hle' hle)
    obtain ⟨r, hr, hc⟩ := List.mem_filterMap.mp hp
    obtain ⟨r', hr', hc'⟩ := List.mem_filterMap.mp hp'
    obtain ⟨hn, httl⟩ := candidate_eq_some.mp hc
    obtain ⟨hn', httl'⟩ := candidate_eq_some.mp hc'
    obtain rfl := eq_of_namesHost hnd hr hr' hn (hhost ▸ hn')
    exact congrArg some (Prod.ext hhost (httl'.trans httl.symm))

/-- For entries with different targets the record is the same in every order. It names the least
host, and there is none exactly if no entry names a host. -/
theorem canonicalReversePTR_least (ptrs : List Model.RR) (hnd : (ptrs.map pointsTo).Nodup)
    (name localDomain : Str) :
    (∀ ptrs' : List Model.RR, ptrs'.Perm ptrs →
      canonicalReversePTR ptrs' name localDomain = canonicalReversePTR ptrs name localDomain) ∧
    (canonicalReversePTR ptrs name localDomain = none ↔ ∀ r ∈ ptrs, ∀ host, ¬ NamesHost r host) ∧
    ∀ rec, canonicalReversePTR ptrs name localDomain = some rec →
      ∃ r ∈ ptrs, ∃ host, NamesHost r host ∧
        rec = ⟨⟨name, typePTR, classINET, if r.ttl = 0 then 120 else r.ttl⟩,
          .ptr (host ++ canonicalSuffix localDomain)⟩ ∧
        ∀ r' ∈ ptrs, ∀ host', NamesHost r' host' → canonicalRank host ≤ canonicalRank host' := by
  refine ⟨fun ptrs' hperm => ?_, ?_, fun rec hrec => ?_⟩
  · rw [canonicalReversePTR_eq, canonicalReversePTR_eq, leastHost_of_perm hnd hperm]
  · rw [canonicalReversePTR_eq, Option.map_eq_none_iff, leastHost, List.argmin_eq_none,
      List.filterMap_eq_nil_iff]
    refine forall₂_congr fun r _ => ?_
    constructor
    · intro hnone host hhost
      rw [candidate_eq_some.mpr (show NamesHost r (host, r.ttl).1 ∧ _ from ⟨hhost, rfl⟩)] at hnone
      cases hnone
    · intro hnone
      rcases hc : candidate r with _ | p
      · rfl
      · exact absurd (candidate_eq_some.mp hc).1 (hnone p.1)
  · rw [canonicalReversePTR_eq, Option.map_eq_some_iff] at hrec
    obtain ⟨p, hbest, rfl⟩ := hrec
    obtain ⟨r, hr, hc⟩ := List.mem_filterMap.mp (List.argmin_mem hbest)
    obtain ⟨hn, httl⟩ := candidate_eq_some.mp hc
    refine ⟨r, hr, p.1, hn, by rw [httl], fun r' hr' host' hn' => ?_⟩
    have hmem : (host', r'.ttl) ∈ ptrs.filterMap candidate :=
      List.mem_filterMap.mpr ⟨r', hr', candidate_eq_some.mpr ⟨hn', rfl⟩⟩
    have hle := List.le_of_mem_argmin hmem hbest
    exact hle

/-- Two hosts that claim an address: the one with the identifier comes second. -/
def claimants : List Model.RR :=
  [{ ttl := 60, target := "0912320f-cbf9-4f76-bc56-82eb9444b0a2.local.".toList },
    { ttl := 120, target := "printer.local.".toList }]

theorem canonicalReversePTR_least_claimants :
    canonicalReversePTR claimants.reverse "5.0.0.10.in-addr.arpa.".toList "lan".toList =
      some ⟨⟨"5.0.0.10.in-addr.arpa.".toList, typePTR, classINET, 120⟩,
        .ptr "printer.lan.".toList⟩ := by
  rw [(canonicalReversePTR_least claimants (by decide) _ _).1 _ claimants.reverse_perm]
  decide

end SplitDNS.Resolver
