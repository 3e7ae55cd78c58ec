import SplitDNS.Resolver.Wildcard

/-! # The chase of aliases

What a chase adds to an answer, as a list of its own. The list is a chain: the
aliases come first, each owned by the target of the one before, and then the
records of the type at the last target. A cyclic chase is cut after nine aliases
and keeps this form.
-/

namespace SplitDNS.Resolver

open Go Go.Strings Dns Model Mirror

variable {newRR : NewRR} {resp : Msg} {z : Zone} {name owner : Str} {q : RRType}

/-- The stored records that answer a query for the type at the owner itself. -/
def storedSet (z : Zone) (owner : Str) (q : RRType) : List Model.RR :=
  if rrsetOf (z.records.lookup owner) q ≠ [] then rrsetOf (z.records.lookup owner) q
  else if q = typeA ∨ q = typeAAAA then rrsetOf (z.tunnelAddr.lookup owner) q
  else []

/-- An owner that stores no answer has neither records of the type nor, for an address, any of the
tunnel. -/
theorem rrsetOf_of_storedSet_eq_nil (h : storedSet z owner q = []) :
    rrsetOf (z.records.lookup owner) q = [] ∧
      (q = typeA ∨ q = typeAAAA → rrsetOf (z.tunnelAddr.lookup owner) q = []) := by
  unfold storedSet at h
  split_ifs at h with hrrs haddr
  · exact absurd h hrrs
  · exact ⟨not_not.mp hrrs, fun _ => h⟩
  · exact ⟨not_not.mp hrrs, fun haddr' => absurd haddr' haddr⟩

/-- The owner answers a query for the type by an alias: it has no record of the type itself, and is
not the apex unless the query is for an address. -/
structure Chases (z : Zone) (owner : Str) (q : RRType) : Prop where
  stored : storedSet z owner q = []
  aliased : rrsetOf (z.records.lookup owner) typeCNAME ≠ []
  below : q = typeA ∨ q = typeAAAA ∨ owner ≠ []

instance : Decidable (Chases z owner q) :=
  decidable_of_iff (storedSet z owner q = [] ∧ rrsetOf (z.records.lookup owner) typeCNAME ≠ [] ∧
    (q = typeA ∨ q = typeAAAA ∨ owner ≠ []))
    ⟨fun h => ⟨h.1, h.2.1, h.2.2⟩, fun h => ⟨h.1, h.2, h.3⟩⟩

section Adding

def chased (newRR : NewRR) (z : Zone) (q : RRType) : ℕ → Str → Str → List Dns.RR
  | 0, _, _ => []
  | steps + 1, owner, name =>
    match rrsetOf (z.records.lookup owner) typeCNAME with
    | [] => []
    | cn :: cns =>
      render newRR (cn :: cns) name typeCNAME ++
        if isSuffixLabel (targetOf cn) z.apex then
          let tOwner := relativeOwner (targetOf cn) z.apex
          if storedSet z tOwner q ≠ [] then render newRR (storedSet z tOwner q) (targetOf cn) q
          else chased newRR z q steps tOwner (targetOf cn)
        else []

theorem chased_of_no_alias (steps : ℕ) (h : rrsetOf (z.records.lookup owner) typeCNAME = []) :
    chased newRR z q steps owner name = [] := by
  cases steps with
  | zero => rfl
  | succ steps => rw [chased, h]

def reached (newRR : NewRR) (z : Zone) (q : RRType) (steps : ℕ) (target : Str) : List Dns.RR :=
  if isSuffixLabel target z.apex then
    let tOwner := relativeOwner target z.apex
    if storedSet z tOwner q ≠ [] then render newRR (storedSet z tOwner q) target q
    else chased newRR z q steps tOwner target
  else []

theorem chased_of_alias (steps : ℕ) {cn : Model.RR} {cns : List Model.RR}
    (h : rrsetOf (z.records.lookup owner) typeCNAME = cn :: cns) :
    chased newRR z q (steps + 1) owner name =
      render newRR (cn :: cns) name typeCNAME ++ reached newRR z q steps (targetOf cn) := by
  rw [chased, h]
  rfl

theorem chaseCNAME_of_no_alias (steps : ℕ)
    (h : rrsetOf (z.records.lookup owner) typeCNAME = []) :
    chaseCNAME newRR z q steps resp owner name = resp := by
  cases steps with
  | zero => rfl
  | succ steps => rw [chaseCNAME, h]

theorem chaseCNAME_of_alias (steps : ℕ) {cn : Model.RR} {cns : List Model.RR}
    (h : rrsetOf (z.records.lookup owner) typeCNAME = cn :: cns) :
    chaseCNAME newRR z q (steps + 1) resp owner name =
      let resp' := appendMatching newRR resp (cn :: cns) name typeCNAME
      let tOwner := relativeOwner (targetOf cn) z.apex
      if isSuffixLabel (targetOf cn) z.apex then
        if storedSet z tOwner q ≠ [] then
          appendMatching newRR resp' (storedSet z tOwner q) (targetOf cn) q
        else chaseCNAME newRR z q steps resp' tOwner (targetOf cn)
      else resp' := by
  rw [chaseCNAME, h]
  dsimp only
  by_cases hin : isSuffixLabel (targetOf cn) z.apex = true
  · generalize relativeOwner (targetOf cn) z.apex = tOwner
    by_cases hrrs : rrsetOf (z.records.lookup tOwner) q = []
    · by_cases hq : q = typeA ∨ q = typeAAAA
      · by_cases haddrs : rrsetOf (z.tunnelAddr.lookup tOwner) q = []
        · by_cases hal : rrsetOf (z.records.lookup tOwner) typeCNAME = []
          · simp [storedSet, hin, hrrs, hq, haddrs, hal, chaseCNAME_of_no_alias]
          · simp [storedSet, hin, hrrs, hq, haddrs, hal]
        · simp [storedSet, hin, hrrs, hq, haddrs]
      · by_cases hal : rrsetOf (z.records.lookup tOwner) typeCNAME = []
        · simp [storedSet, hin, hrrs, hq, hal, chaseCNAME_of_no_alias]
        · simp [storedSet, hin, hrrs, hq, hal]
    · simp [storedSet, hin, hrrs]
  · simp [hin]

theorem answer_chaseCNAME (steps : ℕ) (resp : Msg) (owner name : Str) :
    (chaseCNAME newRR z q steps resp owner name).answer =
      resp.answer ++ chased newRR z q steps owner name := by
  induction steps generalizing resp owner name with
  | zero => simp [chaseCNAME, chased]
  | succ steps ih =>
    rcases hal : rrsetOf (z.records.lookup owner) typeCNAME with _ | ⟨cn, cns⟩
    · rw [chaseCNAME_of_no_alias _ hal, chased_of_no_alias _ hal, List.append_nil]
    · rw [chaseCNAME_of_alias _ hal, chased_of_alias _ hal]
      dsimp only [reached]
      split_ifs
      · rw [appendMatching, appendMatching, List.append_assoc]
      · rw [ih, appendMatching, List.append_assoc]
      · rw [appendMatching, List.append_nil]

theorem answerInZone_of_chases (hcname : q ≠ typeCNAME) (hany : q ≠ typeANY)
    (h : Chases z owner q) : answerInZone newRR resp z name owner q =
      chaseCNAME newRR z q (maxCNAMEChain + 1) resp owner name := by
  obtain ⟨hst, hal, hbelow⟩ := h
  obtain ⟨hrrs, haddrs⟩ := rrsetOf_of_storedSet_eq_nil hst
  by_cases hq : q = typeA ∨ q = typeAAAA
  · simp [answerInZone, hcname, hq, hrrs, haddrs hq, hal]
  · have hne : owner ≠ [] := (or_assoc.mpr hbelow).resolve_left hq
    simp [answerInZone, hcname, hany, hq, hrrs, hne, hal]

end Adding

section Mirrored

/-- The records of a zone as the builder stores them: an alias has its target as its data, which is
a name, and every record set is of a type with a name. -/
structure Mirrored (IsName : Str → Prop) (z : Zone) : Prop where
  aliases : ∀ o, ∀ cn ∈ rrsetOf (z.records.lookup o) typeCNAME,
    cn.type = typeCNAME ∧ cn.cls = classINET ∧ cn.content = targetOf cn ∧ IsName (targetOf cn)
  types : ∀ o t, rrsetOf (z.records.lookup o) t ≠ [] ∨ rrsetOf (z.tunnelAddr.lookup o) t ≠ [] →
    typeToString t ≠ []

def OneAlias (z : Zone) : Prop := ∀ o, (rrsetOf (z.records.lookup o) typeCNAME).length ≤ 1

theorem oneAlias_iff : OneAlias z ↔
    ∀ o ∈ z.records.keys, (rrsetOf (z.records.lookup o) typeCNAME).length ≤ 1 := by
  refine ⟨fun h o _ => h o, fun h o => ?_⟩
  by_cases ho : o ∈ z.records
  · exact h o (AList.mem_keys.mp ho)
  · rw [AList.lookup_eq_none.mpr ho]
    exact Nat.zero_le 1

instance : Decidable (OneAlias z) := decidable_of_iff _ oneAlias_iff.symm

variable {IsName : Str → Prop} {cn : Model.RR}

theorem ensureDot_fqdn (s : Str) : ensureDot (fqdn s) = fqdn s := by
  have hdot : ['.'] <:+ fqdn s := by
    unfold fqdn
    split_ifs with h
    · exact dot_suffix_of_isFqdn h
    · exact List.suffix_append _ _
  rw [ensureDot, if_pos]
  simpa [hasSuffix] using Or.inr hdot

theorem toRR_eq_some_iff {r : Model.RR} {rec : Record} : toRR newRR r name = some rec ↔
    newRR (join [fqdn name, formatUint r.ttl.toNat, classToString (classOrINET r.cls),
      typeToString r.type, r.rdata] ' ') = .ok (some rec) := by
  have hline : Model.RR.line { r with name := fqdn name } =
      join [fqdn name, formatUint r.ttl.toNat, classToString (classOrINET r.cls),
        typeToString r.type, r.rdata] ' ' := by
    rw [Model.RR.line, ensureDot_fqdn]
    rfl
  rw [toRR, Model.RR.toMiekg, hline]
  rcases newRR _ with e | _ | rec' <;> simp [Except.toOption]

theorem line_of_toRR {r : Model.RR} {rec : Record} (h : toRR newRR r name = some rec) :
    newRR (join [fqdn name, formatUint r.ttl.toNat, classToString (classOrINET r.cls),
      typeToString r.type, r.rdata] ' ') = .ok (some rec) :=
  toRR_eq_some_iff.mp h

def aliasRecord (cn : Model.RR) (name : Str) : Record :=
  ⟨⟨fqdn name, typeCNAME, classINET, cn.ttl⟩, .text (targetOf cn)⟩

theorem Mirrored.toRR_alias (hz : Mirrored IsName z) (hread : ReadsNames newRR IsName)
    (hname : IsName (fqdn name)) (hcn : cn ∈ rrsetOf (z.records.lookup owner) typeCNAME) :
    toRR newRR cn name = some (aliasRecord cn name) := by
  obtain ⟨htype, hcls, hcontent, htarget⟩ := hz.aliases owner cn hcn
  have hrdata : cn.rdata = targetOf cn := by
    rw [Model.RR.rdata, if_neg, if_neg]
    · exact hcontent
    · rw [htype]
      decide
    · rw [htype]
      decide
  have hclass : classOrINET cn.cls = classINET := by
    rw [hcls]
    rfl
  rw [toRR_eq_some_iff, hrdata, htype, hclass]
  exact hread.reads cn.ttl hname htarget

theorem Mirrored.render_alias (hz : Mirrored IsName z) (hread : ReadsNames newRR IsName)
    (hname : IsName (fqdn name)) (hcn : rrsetOf (z.records.lookup owner) typeCNAME = [cn]) :
    render newRR [cn] name typeCNAME = [some (aliasRecord cn name)] := by
  have hmem : cn ∈ rrsetOf (z.records.lookup owner) typeCNAME := by simp [hcn]
  have htype : cn.type = typeCNAME := (hz.aliases owner cn hmem).1
  simp [render, htype, hz.toRR_alias hread hname hmem]

theorem Mirrored.typeToString_ne_nil (hz : Mirrored IsName z) (h : storedSet z owner q ≠ []) :
    typeToString q ≠ [] := by
  unfold storedSet at h
  split_ifs at h with hrrs haddr
  · exact hz.types owner q (Or.inl hrrs)
  · exact hz.types owner q (Or.inr h)
  · exact absurd rfl h

theorem Mirrored.render_stored (hz : Mirrored IsName z) (hread : ReadsNames newRR IsName)
    (hname : IsName (fqdn name)) (hany : q ≠ typeANY) :
    ∃ rrs : List Record, render newRR (storedSet z owner q) name q = rrs.map some ∧
      ∀ rec ∈ rrs, rec.hdr.rrtype = q ∧ rec.hdr.name = fqdn name := by
  refine ⟨((storedSet z owner q).filter fun r : Model.RR => q = typeANY || r.type = q).filterMap
    fun r => toRR newRR r name, List.map_filterMap.symm, fun rec hmem => ?_⟩
  obtain ⟨r, hr, hrec⟩ := List.mem_filterMap.mp hmem
  obtain ⟨hr, htype⟩ := List.mem_filter.mp hr
  have hq : typeToString q ≠ [] := hz.typeToString_ne_nil (List.ne_nil_of_mem hr)
  simp only [hany, decide_false, Bool.false_or, decide_eq_true_eq] at htype
  subst htype
  exact (hread.header hname hq (line_of_toRR hrec)).symm

theorem toModelRR_alias {r : CFAPI.Record} {zoneID : Str} {rr : Model.RR}
    (h : toModelRR newRR r zoneID = some rr) (htype : rr.type = typeCNAME) :
    rr.cls = classINET ∧ rr.target = rr.content := by
  simp only [toModelRR, Option.bind_eq_bind, Option.bind_eq_some_iff] at h
  obtain ⟨typ, -, rr', hcontent, h⟩ := h
  split_ifs at h with hok
  cases h
  have htyp : typ = typeCNAME := (withContent_type hcontent).1.symm.trans htype
  subst htyp
  cases (show withContent _ r = some _ from rfl).symm.trans hcontent
  exact ⟨rfl, rfl⟩

theorem ne_nil_of_isName (hqual : ∀ {n}, IsName n → fqdn n = n) {n : Str} (h : IsName n) :
    n ≠ [] := by
  rintro rfl
  exact absurd (hqual h) (by decide)

theorem mirrored_buildZone {apex zoneID : Str} {tunnelSuffixes : List Str}
    {recs : List CFAPI.Record} {tr : TunnelResolver} (hqual : ∀ {n}, IsName n → fqdn n = n)
    (h : ∀ r ∈ recs, ∀ rr ∈ toModelRR newRR r zoneID, rr.type = typeCNAME → IsName rr.content) :
    Mirrored IsName (buildZone newRR apex zoneID tunnelSuffixes recs tr) where
  aliases o cn hcn := by
    rw [lookup_buildZone_records] at hcn
    split_ifs at hcn
    · cases hcn
    · obtain ⟨hmem, htype⟩ := mem_rrsetOf_sets.mp hcn
      obtain ⟨r, hr, hstored⟩ := List.mem_filterMap.mp hmem
      have hacc := (Option.filter_eq_some_iff.mp hstored).1
      obtain ⟨hcls, htarget⟩ := toModelRR_alias hacc htype
      have hname := h r (List.mem_of_mem_filter hr) cn hacc htype
      have hcontent : targetOf cn = cn.content := by
        rw [targetOf, htarget, if_pos (ne_nil_of_isName hqual hname), hqual hname]
      exact ⟨htype, hcls, hcontent.symm, hcontent.symm ▸ hname⟩
  types o t ht := by
    rcases ht with ht | ht
    · obtain ⟨rr, hrr⟩ := List.exists_mem_of_ne_nil _ ht
      have hall : mirroredTypes.all (fun t => typeToString t ≠ []) = true := by decide
      simpa using List.all_eq_true.mp hall t (mem_buildZone_rrset hrr).2.1
    · rcases rrsetOf_buildZone_tunnelAddr _ _ _ _ _ _ ht with rfl | rfl <;> decide

end Mirrored

section Chain

def aliasTarget (rec : Record) : Str :=
  match rec.data with
  | .text target => target
  | _ => []

/-- The records are aliases, the first of the name and each next one of the target before it. -/
def Linked : Str → List Record → Prop
  | _, [] => True
  | name, rec :: recs =>
    rec.hdr.name = name ∧ rec.hdr.rrtype = typeCNAME ∧ Linked (aliasTarget rec) recs

def lastTarget : Str → List Record → Str
  | name, [] => name
  | _, rec :: recs => lastTarget (aliasTarget rec) recs

/-- A chain of aliases from the name and the records of the type at its end. -/
def Chained (q : RRType) (name : Str) (links rrs : List Record) : Prop :=
  Linked name links ∧ ∀ rec ∈ rrs, rec.hdr.rrtype = q ∧ rec.hdr.name = lastTarget name links

variable {IsName : Str → Prop}

theorem chased_chained (hread : ReadsNames newRR IsName) (hz : Mirrored IsName z)
    (hone : OneAlias z) (hany : q ≠ typeANY) (steps : ℕ) (owner name : Str)
    (hname : IsName (fqdn name)) :
    ∃ links rrs, chased newRR z q steps owner name = (links ++ rrs).map some ∧
      links.length ≤ steps ∧ Chained q (fqdn name) links rrs ∧
      (steps ≠ 0 → rrsetOf (z.records.lookup owner) typeCNAME ≠ [] → links ≠ []) := by
  induction steps generalizing owner name with
  | zero => exact ⟨[], [], rfl, le_rfl, ⟨trivial, by simp⟩, fun h => absurd rfl h⟩
  | succ steps ih =>
    rcases hal : rrsetOf (z.records.lookup owner) typeCNAME with _ | ⟨cn, cns⟩
    · refine ⟨[], [], chased_of_no_alias _ hal, Nat.zero_le _, ⟨trivial, by simp⟩, ?_⟩
      exact fun _ h => absurd rfl h
    · obtain rfl : cns = [] := by
        have := hone owner
        rw [hal] at this
        simpa using this
      have htarget : IsName (targetOf cn) := (hz.aliases owner cn (by simp [hal])).2.2.2
      have hfqdn : fqdn (targetOf cn) = targetOf cn := hread.qualified htarget
      -- what follows the alias is a chain from its target
      obtain ⟨links, rrs, htail, hlen, hchain⟩ : ∃ links rrs,
          reached newRR z q steps (targetOf cn) = (links ++ rrs).map some ∧
            links.length ≤ steps ∧ Chained q (targetOf cn) links rrs := by
        unfold reached
        dsimp only
        split_ifs
        · obtain ⟨rrs, hrender, hrrs⟩ := hz.render_stored hread (hfqdn.symm ▸ htarget) hany
          rw [hfqdn] at hrrs
          exact ⟨[], rrs, hrender, Nat.zero_le _, trivial, hrrs⟩
        · obtain ⟨links, rrs, hchased, hlen, hchain, -⟩ := ih _ _ (hfqdn.symm ▸ htarget)
          rw [hfqdn] at hchain
          exact ⟨links, rrs, hchased, hlen, hchain⟩
        · exact ⟨[], [], rfl, Nat.zero_le _, trivial, by simp⟩
      refine ⟨aliasRecord cn name :: links, rrs, ?_, Nat.succ_le_succ hlen, ?_, by simp⟩
      · rw [chased_of_alias _ hal, hz.render_alias hread hname hal, htail]
        rfl
      · exact ⟨⟨rfl, rfl, hchain.1⟩, hchain.2⟩

end Chain

/-- The answer of a chase is a chain of at most nine aliases, the first of the name asked for and
each next one of the target before it, and then records of the type at the last target. -/
theorem answerAuthoritative_chain (newRR : NewRR) (IsName : Str → Prop)
    (hread : ReadsNames newRR IsName) (req : Msg) (z : Zone) (hz : Mirrored IsName z)
    (hone : OneAlias z) (name owner : Str) (hname : IsName (fqdn name)) (q : RRType)
    (hcname : q ≠ typeCNAME) (hany : q ≠ typeANY) (hchase : Chases z owner q) :
    ∃ links rrs : List Record,
      (answerAuthoritative newRR req (some z) name owner q).answer = (links ++ rrs).map some ∧
      links ≠ [] ∧ links.length ≤ 9 ∧ Linked (fqdn name) links ∧
      ∀ rec ∈ rrs, rec.hdr.rrtype = q ∧ rec.hdr.name = lastTarget (fqdn name) links := by
  obtain ⟨links, rrs, hchased, hlen, ⟨hlinked, hrrs⟩, hne⟩ :=
    chased_chained hread hz hone hany (maxCNAMEChain + 1) owner name hname
  refine ⟨links, rrs, ?_, hne (Nat.succ_ne_zero _) hchase.aliased, hlen, hlinked, hrrs⟩
  rw [answerAuthoritative, answerInZone_of_chases hcname hany hchase, answer_chaseCNAME, hchased]
  rfl

def cyclicRecords : List CFAPI.Record :=
  [{ type := "CNAME".toList, name := "a.example.com".toList, content := "b.example.com".toList },
   { type := "CNAME".toList, name := "b.example.com".toList, content := "a.example.com".toList }]

theorem answerAuthoritative_chain_cyclic :
    let z := buildZone readLine "example.com".toList [] [] cyclicRecords noTunnels
    OneAlias z ∧ Chases z ['a'] typeA ∧ ∃ links rrs : List Record,
      (answerAuthoritative readLine {} (some z) "a.example.com.".toList ['a'] typeA).answer =
        (links ++ rrs).map some ∧
      links ≠ [] ∧ links.length ≤ 9 ∧ Linked "a.example.com.".toList links ∧
      ∀ rec ∈ rrs, rec.hdr.rrtype = typeA ∧
        rec.hdr.name = lastTarget "a.example.com.".toList links := by
  have hmirrored : Mirrored PlainName
      (buildZone readLine "example.com".toList [] [] cyclicRecords noTunnels) :=
    mirrored_buildZone (fun h => h.1) (by decide)
  refine ⟨by decide, by decide, ?_⟩
  exact answerAuthoritative_chain readLine PlainName readsNames_readLine {} _ hmirrored (by decide)
    "a.example.com.".toList ['a'] (by decide) typeA (by decide) (by decide) (by decide)

end SplitDNS.Resolver
