import SplitDNS.Resolver.Chase
import SplitDNS.Resolver.Names

/-! # Aliases and restarted queries

An alias should be answered by itself and by what a query for its target gives.
The chase looks the target up on its own, and finds less: it asks neither the
wildcard nor, for a target not in lower case, the zone, while it follows an alias
of the apex that a query for the apex does not.
-/

namespace SplitDNS.Resolver

open Go Go.Strings Dns Model Mirror

variable {newRR : NewRR} {resp : Msg} {z : Zone} {name owner : Str} {q : RRType}

/-- No record, tunnel address or empty non-terminal makes the owner exist. -/
def Missing (z : Zone) (owner : Str) : Prop :=
  owner ∉ z.records ∧ owner ∉ z.tunnelAddr ∧ owner ∉ z.ent

instance : Decidable (Missing z owner) := inferInstanceAs (Decidable (_ ∧ _ ∧ _))

section Direct

/-- The answer of a zone to a query for one type that is no alias. -/
def answered (newRR : NewRR) (z : Zone) (name owner : Str) (q : RRType) : List Dns.RR :=
  if storedSet z owner q ≠ [] then render newRR (storedSet z owner q) name q
  else if Chases z owner q then chased newRR z q (maxCNAMEChain + 1) owner name
  else if Missing z owner then renderSets newRR (synthesized z q) name
  else []

theorem answer_absentType (h : ¬ Missing z owner) :
    (absentType newRR resp z name owner q).answer = resp.answer := by
  rw [absentType, if_pos, answer_setNegativeSOA]
  simp only [Missing, not_and_or, not_not, ← AList.lookup_isSome] at h
  simpa [or_assoc] using h

theorem Missing.rrsetOf_eq_nil (h : Missing z owner) (t : RRType) :
    rrsetOf (z.records.lookup owner) t = [] ∧ rrsetOf (z.tunnelAddr.lookup owner) t = [] := by
  rw [AList.lookup_eq_none.mpr h.1, AList.lookup_eq_none.mpr h.2.1]
  exact ⟨rfl, rfl⟩

theorem Missing.storedSet_eq_nil (h : Missing z owner) : storedSet z owner q = [] := by
  simp [storedSet, h.rrsetOf_eq_nil]

theorem answerInZone_of_stored (hcname : q ≠ typeCNAME) (hany : q ≠ typeANY)
    (h : storedSet z owner q ≠ []) : answerInZone newRR resp z name owner q =
      appendMatching newRR resp (storedSet z owner q) name q := by
  unfold storedSet at h ⊢
  split_ifs at h ⊢ with hrrs haddr
  · by_cases haddr : q = typeA ∨ q = typeAAAA
    · simp [answerInZone, hcname, haddr, hrrs]
    · simp [answerInZone, hcname, hany, haddr, hrrs]
  · rw [not_not] at hrrs
    simp [answerInZone, hcname, haddr, hrrs, h]
  · exact absurd rfl h

theorem answerInZone_of_not_chases (hcname : q ≠ typeCNAME) (hany : q ≠ typeANY)
    (hst : storedSet z owner q = []) (hch : ¬ Chases z owner q) :
    answerInZone newRR resp z name owner q = absentType newRR resp z name owner q := by
  obtain ⟨hrrs, haddrs⟩ := rrsetOf_of_storedSet_eq_nil hst
  have hno : rrsetOf (z.records.lookup owner) typeCNAME ≠ [] →
      ¬ (q = typeA ∨ q = typeAAAA) ∧ owner = [] := by
    intro hal
    by_contra hbelow
    exact hch ⟨hst, hal, by tauto⟩
  by_cases haddr : q = typeA ∨ q = typeAAAA
  · have hal : rrsetOf (z.records.lookup owner) typeCNAME = [] := by
      by_contra hal
      exact (hno hal).1 haddr
    simp [answerInZone, hcname, haddr, hrrs, haddrs haddr, hal]
  · by_cases hal : rrsetOf (z.records.lookup owner) typeCNAME = []
    · simp [answerInZone, hcname, hany, haddr, hrrs, hal]
    · simp [answerInZone, hcname, hany, haddr, hrrs, (hno hal).2]

theorem answer_answerInZone (hcname : q ≠ typeCNAME) (hany : q ≠ typeANY) :
    (answerInZone newRR resp z name owner q).answer =
      resp.answer ++ answered newRR z name owner q := by
  unfold answered
  split_ifs with hst hch hmiss
  · rw [answerInZone_of_stored hcname hany hst]
    rfl
  · rw [answerInZone_of_chases hcname hany hch, answer_chaseCNAME]
  · rw [answerInZone_of_absent hmiss.1 hmiss.2.1 hmiss.2.2, answer_wildcardOrNX]
  · rw [answerInZone_of_not_chases hcname hany (not_not.mp hst) hch, answer_absentType hmiss,
      List.append_nil]

end Direct

section Spelling

/-- The apex and the owners of the zone are in lower case. -/
structure Lowered (z : Zone) : Prop where
  apex : toLower z.apex = z.apex
  records : ∀ o ∈ z.records, toLower o = o
  tunnelAddr : ∀ o ∈ z.tunnelAddr, toLower o = o

theorem toLower_relOwner (name apex : Str) : toLower (relOwner name apex) = relOwner name apex := by
  unfold relOwner
  dsimp only
  split_ifs
  · rfl
  · have hlow : toLower (fqdn (toLower name)) = fqdn (toLower name) := by
      rw [← fqdn_toLower, toLower_toLower]
    exact toLower_trimSuffix (toLower_trimSuffix hlow)

theorem lowered_buildZone {apex zoneID : Str} {tunnelSuffixes : List Str}
    {recs : List CFAPI.Record} {tr : TunnelResolver} :
    Lowered (buildZone newRR apex zoneID tunnelSuffixes recs tr) where
  apex := by
    rw [buildZone_apex, ← fqdn_toLower, toLower_toLower]
  records o ho := by
    obtain ⟨rr, hrr⟩ := List.exists_mem_of_ne_nil _ (mem_buildZone_records ..|>.mp ho).2
    obtain ⟨r, hr, -⟩ := List.mem_filterMap.mp hrr
    rw [← of_decide_eq_true (List.mem_filter.mp hr).2]
    exact toLower_relOwner _ _
  tunnelAddr o ho := by
    obtain ⟨r, -, rfl, -⟩ := (mem_buildZone_tunnelAddr ..|>.mp ho).1
    exact toLower_relOwner _ _

theorem Lowered.nothing_stored (h : Lowered z) {t : Str} (ht : toLower t ≠ t)
    (hin : isSuffixLabel t z.apex = true) :
    relativeOwner t z.apex ∉ z.records ∧ relativeOwner t z.apex ∉ z.tunnelAddr := by
  rcases isSuffixLabel_iff.mp hin with rfl | ⟨o, rfl⟩
  · exact absurd h.apex ht
  · have ho : toLower o ≠ o := by
      intro ho
      refine ht ?_
      have hapex : z.apex.map Char.toLower = z.apex := h.apex
      rw [toLower, List.map_append, List.map_cons, hapex]
      exact congrArg (· ++ '.' :: z.apex) ho
    rw [relativeOwner_append]
    exact ⟨fun hmem => ho (h.records o hmem), fun hmem => ho (h.tunnelAddr o hmem)⟩

end Spelling

section Length

/-- The target of the alias of a name, if the name is in the zone and has one. Names are compared
without regard to case. -/
def next (z : Zone) (t : Str) : Option Str :=
  if isSuffixLabel (toLower t) z.apex then
    (rrsetOf (z.records.lookup (relativeOwner (toLower t) z.apex)) typeCNAME).head?.map targetOf
  else none

/-- The chain of aliases from a name ends after at most so many. -/
def endsWithin (z : Zone) : ℕ → Str → Bool
  | 0, t => (next z t).isNone
  | n + 1, t => (next z t).all (endsWithin z n)

theorem Lowered.next_eq (hz : Lowered z) {t : Str} (hin : isSuffixLabel t z.apex = true)
    {cn : Model.RR} {cns : List Model.RR}
    (hal : rrsetOf (z.records.lookup (relativeOwner t z.apex)) typeCNAME = cn :: cns) :
    next z t = some (targetOf cn) := by
  have hlow : toLower t = t := by
    by_contra hlow
    rw [AList.lookup_eq_none.mpr (hz.nothing_stored hlow hin).1] at hal
    cases hal
  rw [next, hlow, if_pos hin, hal]
  rfl

theorem chased_eq_of_endsWithin (hz : Lowered z) {n : ℕ} {t : Str} (h : endsWithin z n t = true)
    (hin : isSuffixLabel t z.apex = true) {steps steps' : ℕ} (hs : n ≤ steps) (hs' : n ≤ steps') :
    chased newRR z q steps (relativeOwner t z.apex) t =
      chased newRR z q steps' (relativeOwner t z.apex) t := by
  rcases hal : rrsetOf (z.records.lookup (relativeOwner t z.apex)) typeCNAME with _ | ⟨cn, cns⟩
  · rw [chased_of_no_alias _ hal, chased_of_no_alias _ hal]
  induction n generalizing t steps steps' cn cns with
  | zero =>
    rw [endsWithin, hz.next_eq hin hal] at h
    cases h
  | succ n ih =>
    obtain ⟨steps, rfl⟩ := Nat.exists_eq_add_of_lt hs
    obtain ⟨steps', rfl⟩ := Nat.exists_eq_add_of_lt hs'
    rw [endsWithin, hz.next_eq hin hal, Option.all_some] at h
    rw [chased_of_alias _ hal, chased_of_alias _ hal]
    congr 1
    dsimp only [reached]
    split_ifs with htarget
    · rfl
    · rcases hnext : rrsetOf (z.records.lookup (relativeOwner (targetOf cn) z.apex)) typeCNAME
        with _ | ⟨cn', cns'⟩
      · rw [chased_of_no_alias _ hnext, chased_of_no_alias _ hnext]
      · exact ih h htarget (by omega) (by omega) cn' cns' hnext
    · rfl

end Length

section Silence

variable {IsName : Str → Prop}

theorem chased_ne_nil (hread : ReadsNames newRR IsName) (hz : Mirrored IsName z)
    (hname : IsName (fqdn name)) (hal : rrsetOf (z.records.lookup owner) typeCNAME ≠ [])
    (steps : ℕ) : chased newRR z q (steps + 1) owner name ≠ [] := by
  obtain ⟨cn, cns, hcn⟩ := List.exists_cons_of_ne_nil hal
  have hmem : cn ∈ rrsetOf (z.records.lookup owner) typeCNAME := by simp [hcn]
  have hrender : render newRR (cn :: cns) name typeCNAME ≠ [] := by
    simp [render, (hz.aliases owner cn hmem).1, hz.toRR_alias hread hname hmem]
  rw [chased_of_alias _ hcn]
  exact List.append_ne_nil_of_left_ne_nil hrender _

theorem Chases.not_missing (h : Chases z owner q) : ¬ Missing z owner :=
  fun hmiss => h.aliased (hmiss.rrsetOf_eq_nil _).1

/-- A zone has no answer to a query iff it neither stores one that renders, nor has an alias to
follow, nor synthesizes one. -/
theorem answered_eq_nil_iff (hread : ReadsNames newRR IsName) (hz : Mirrored IsName z)
    (hname : IsName (fqdn name)) : answered newRR z name owner q = [] ↔
      ¬ Chases z owner q ∧ render newRR (storedSet z owner q) name q = [] ∧
        (Missing z owner → renderSets newRR (synthesized z q) name = []) := by
  unfold answered
  split_ifs with hst hch hmiss
  · have hnot : ¬ Chases z owner q := fun hch => hst hch.stored
    have hthere : ¬ Missing z owner := fun hmiss => hst hmiss.storedSet_eq_nil
    simp [hnot, hthere]
  · exact iff_of_false (chased_ne_nil hread hz hname hch.aliased _) fun h => h.1 hch
  · rw [not_not.mp hst]
    simp [hch, hmiss, render]
  · rw [not_not.mp hst]
    simp [hch, hmiss, render]

theorem answered_ne_alias (hread : ReadsNames newRR IsName) (hz : Mirrored IsName z)
    (hname : IsName (fqdn name)) (hcname : q ≠ typeCNAME) (hany : q ≠ typeANY)
    (hal : rrsetOf (z.records.lookup owner) typeCNAME ≠ []) (hch : ¬ Chases z owner q)
    (cn : Model.RR) (rrs : List Dns.RR) :
    answered newRR z name owner q ≠ some (aliasRecord cn name) :: rrs := by
  intro h
  rw [answered, if_neg hch] at h
  split_ifs at h with hst hmiss
  · obtain ⟨recs, hrender, hrecs⟩ := hz.render_stored hread hname hany
    rw [hrender] at h
    obtain ⟨rec, hrec, heq⟩ := List.mem_map.mp (h ▸ List.mem_cons_self : _ ∈ recs.map some)
    cases heq
    exact hcname (hrecs _ hrec).1.symm
  · exact hal (hmiss.rrsetOf_eq_nil _).1

end Silence

section Targets

theorem reached_of_not_lower (hlow : Lowered z) {t : Str} (ht : toLower t ≠ t) (steps : ℕ) :
    reached newRR z q steps t = [] := by
  unfold reached
  split_ifs with hin
  · obtain ⟨hrecords, htunnel⟩ := hlow.nothing_stored ht hin
    rw [← AList.lookup_eq_none] at hrecords htunnel
    have hst : storedSet z (relativeOwner t z.apex) q = [] := by
      simp [storedSet, hrecords, htunnel, rrsetOf]
    have hal : rrsetOf (z.records.lookup (relativeOwner t z.apex)) typeCNAME = [] := by
      simp [hrecords, rrsetOf]
    dsimp only
    rw [if_neg (not_not_intro hst), chased_of_no_alias _ hal]
  · rfl

/-- What is found at a target in lower case is what a query for it is answered, if the wildcard does
not answer and no alias of the apex is followed. -/
theorem reached_eq_answered_iff {IsName : Str → Prop} (hread : ReadsNames newRR IsName)
    (hz : Mirrored IsName z) (hlow : Lowered z) {t : Str} (ht : IsName t)
    (hin : isSuffixLabel t z.apex = true) (hends : endsWithin z 7 t = true) :
    reached newRR z q maxCNAMEChain t = answered newRR z t (relativeOwner t z.apex) q ↔
      (Missing z (relativeOwner t z.apex) → renderSets newRR (synthesized z q) t = []) ∧
      (storedSet z (relativeOwner t z.apex) q = [] →
        rrsetOf (z.records.lookup (relativeOwner t z.apex)) typeCNAME ≠ [] →
        Chases z (relativeOwner t z.apex) q) := by
  have hfqdn : IsName (fqdn t) := (hread.qualified ht).symm ▸ ht
  have hsteps : chased newRR z q maxCNAMEChain (relativeOwner t z.apex) t =
      chased newRR z q (maxCNAMEChain + 1) (relativeOwner t z.apex) t :=
    chased_eq_of_endsWithin hlow hends hin (by decide) (by decide)
  rw [reached, if_pos hin]
  dsimp only
  generalize relativeOwner t z.apex = o at hsteps ⊢
  unfold answered
  split_ifs with hst hch hmiss
  · exact iff_of_true rfl ⟨fun hmiss => absurd hmiss.storedSet_eq_nil hst, fun h => absurd h hst⟩
  · exact iff_of_true hsteps ⟨fun hmiss => absurd hmiss hch.not_missing, fun _ _ => hch⟩
  · have hal := (hmiss.rrsetOf_eq_nil typeCNAME).1
    rw [chased_of_no_alias _ hal, eq_comm]
    simp [hmiss, hal]
  · by_cases hal : rrsetOf (z.records.lookup o) typeCNAME = []
    · simp [chased_of_no_alias _ hal, hmiss, hal]
    · refine iff_of_false ?_ fun h => hch (h.2 (not_not.mp hst) hal)
      rw [hsteps]
      exact chased_ne_nil hread hz hfqdn hal _

end Targets

/-- An alias of the owner is answered by itself and by what its target answers: the owner is not
answered otherwise; the wildcard does not answer for the target; the target is not the apex with an
alias that only a chase follows; and the target is in lower case or has no answer. -/
structure Composes (newRR : NewRR) (z : Zone) (owner target : Str) (q : RRType) : Prop where
  chases : Chases z owner q
  wildcard : Missing z (relativeOwner (toLower target) z.apex) →
    renderSets newRR (synthesized z q) (toLower target) = []
  apex : toLower target = target → storedSet z (relativeOwner target z.apex) q = [] →
    rrsetOf (z.records.lookup (relativeOwner target z.apex)) typeCNAME ≠ [] →
    Chases z (relativeOwner target z.apex) q
  lower : toLower target ≠ target → ¬ Chases z (relativeOwner (toLower target) z.apex) q ∧
    render newRR (storedSet z (relativeOwner (toLower target) z.apex) q) (toLower target) q = []

/-- The answer for an owner with an alias is the alias and the answer for its target iff nothing
comes in between. -/
theorem answer_alias_iff (newRR : NewRR) (IsName : Str → Prop) (hread : ReadsNames newRR IsName)
    (req : Msg) (z : Zone) (hz : Mirrored IsName z) (hlow : Lowered z) (name owner : Str)
    (hname : IsName (fqdn name)) (cn : Model.RR)
    (hcn : rrsetOf (z.records.lookup owner) typeCNAME = [cn])
    (hin : isSuffixLabel (toLower (targetOf cn)) z.apex = true)
    (hends : endsWithin z 7 (targetOf cn) = true) (q : RRType) (hcname : q ≠ typeCNAME)
    (hany : q ≠ typeANY) :
    let target := toLower (targetOf cn)
    (answerAuthoritative newRR req (some z) name owner q).answer =
        toRR newRR cn name ::
          (answerAuthoritative newRR req (some z) target (relativeOwner target z.apex) q).answer ↔
      Composes newRR z owner (targetOf cn) q := by
  intro target
  have hal : rrsetOf (z.records.lookup owner) typeCNAME ≠ [] := by simp [hcn]
  have htarget : IsName (targetOf cn) := (hz.aliases owner cn (by simp [hcn])).2.2.2
  rw [hz.toRR_alias hread hname (show cn ∈ rrsetOf _ _ by rw [hcn]; exact List.mem_cons_self),
    answerAuthoritative, answerAuthoritative, answer_answerInZone hcname hany,
    answer_answerInZone hcname hany]
  change answered newRR z name owner q = some (aliasRecord cn name) ::
    answered newRR z target (relativeOwner target z.apex) q ↔ _
  by_cases hch : Chases z owner q
  · rw [answered, if_neg (not_not_intro hch.stored), if_pos hch, chased_of_alias _ hcn,
      hz.render_alias hread hname hcn, List.singleton_append, List.cons.injEq, and_iff_right rfl]
    by_cases hcase : toLower (targetOf cn) = targetOf cn
    · rw [show target = targetOf cn from hcase,
        reached_eq_answered_iff hread hz hlow htarget (hcase ▸ hin) hends]
      constructor
      · rintro ⟨hwildcard, hapex⟩
        refine ⟨hch, ?_, fun _ => hapex, fun h => absurd hcase h⟩
        rwa [hcase]
      · intro h
        have hwildcard := h.wildcard
        rw [hcase] at hwildcard
        exact ⟨hwildcard, h.apex hcase⟩
    · have hlower : IsName (fqdn target) := by
        rw [hread.qualified (hread.lower htarget)]
        exact hread.lower htarget
      rw [reached_of_not_lower hlow hcase, eq_comm, answered_eq_nil_iff hread hz hlower]
      constructor
      · rintro ⟨hnot, hrender, hwildcard⟩
        exact ⟨hch, hwildcard, fun h => absurd h hcase, fun _ => ⟨hnot, hrender⟩⟩
      · intro h
        exact ⟨(h.lower hcase).1, (h.lower hcase).2, h.wildcard⟩
  · exact iff_of_false (answered_ne_alias hread hz hname hcname hany hal hch _ _)
      fun h => hch h.chases

def hostAlias : List CFAPI.Record :=
  [{ type := "CNAME".toList, name := "web.example.com".toList,
     content := "www.example.com".toList },
   { type := "A".toList, name := "www.example.com".toList, content := "192.0.2.1".toList }]

theorem answer_alias_host :
    let z := buildZone readLine "example.com".toList [] [] hostAlias noTunnels
    let answer (name owner : Str) :=
      (answerAuthoritative readLine {} (some z) name owner typeA).answer
    OneAlias z ∧ ∃ cn, rrsetOf (z.records.lookup "web".toList) typeCNAME = [cn] ∧
      answer "web.example.com.".toList "web".toList =
        toRR readLine cn "web.example.com.".toList ::
          answer "www.example.com.".toList "www".toList := by
  refine ⟨by decide, _, rfl, ?_⟩
  exact (answer_alias_iff readLine PlainName readsNames_readLine {}
    (buildZone readLine "example.com".toList [] [] hostAlias noTunnels)
    (mirrored_buildZone (fun h => h.1) (by decide)) lowered_buildZone "web.example.com.".toList
    "web".toList (by decide) _ rfl (by decide) (by decide) typeA (by decide) (by decide)).mpr
    ⟨by decide, by decide, by decide, by decide⟩

/-- An alias of a name that only the wildcard answers for, and one that spells its target with
capitals. -/
def lostAliases : List CFAPI.Record :=
  [{ type := "CNAME".toList, name := "web.example.com".toList,
     content := "any.example.com".toList },
   { type := "CNAME".toList, name := "old.example.com".toList,
     content := "WWW.Example.com".toList },
   { type := "A".toList, name := "www.example.com".toList, content := "192.0.2.1".toList },
   { type := "A".toList, name := "*.example.com".toList, content := "192.0.2.9".toList }]

/-- The data of the answer to a query for an address. -/
def addressData (z : Zone) (name owner : String) : List (Option RData) :=
  (answerAuthoritative readLine {} (some z) name.toList owner.toList typeA).answer.map
    (·.map (·.data))

/-- Both are answered by the alias alone, and their targets have addresses. -/
theorem alias_without_target :
    let z := buildZone readLine "example.com".toList [] [] lostAliases noTunnels
    OneAlias z ∧ endsWithin z 0 "any.example.com.".toList ∧
      endsWithin z 0 "WWW.Example.com.".toList ∧
      addressData z "web.example.com." "web" = [some (.text "any.example.com.".toList)] ∧
      addressData z "any.example.com." "any" = [some (.a (.v4 0xC0000209))] ∧
      addressData z "old.example.com." "old" = [some (.text "WWW.Example.com.".toList)] ∧
      addressData z "www.example.com." "www" = [some (.a (.v4 0xC0000201))] := by
  decide +kernel

end SplitDNS.Resolver
