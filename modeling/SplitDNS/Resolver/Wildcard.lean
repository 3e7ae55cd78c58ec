import SplitDNS.Dns.Presentation
import SplitDNS.Mirror.Nodes
import SplitDNS.Resolver.Replies

/-! # Wildcards

When the wildcard of a zone answers. A name without a node of its own is
answered from the wildcard wherever it lies, also below a node of the zone. The
answers are those of the records stored at the name itself except for aliases,
which the wildcard does not follow.
-/

namespace SplitDNS

open Go Go.Strings Dns Model

namespace Model.Zone

/-- The owner exists in the zone: it has records or tunnel addresses or is above some. -/
def HasNode (z : Zone) (owner : Str) : Prop :=
  owner ∈ z.records ∨ owner ∈ z.tunnelAddr ∨ owner ∈ z.ent ∨
    owner = ['*'] ∧ z.wildcards.entries ≠ []

def wildcardTunnel (z : Zone) : RRsets := (z.tunnelAddr.lookup ['*']).getD ∅

def HasWildcard (z : Zone) : Prop := z.wildcards.entries ≠ [] ∨ z.wildcardTunnel.entries ≠ []

instance (z : Zone) (owner : Str) : Decidable (z.HasNode owner) :=
  inferInstanceAs (Decidable (_ ∨ _ ∨ _ ∨ _))

instance (z : Zone) : Decidable z.HasWildcard := inferInstanceAs (Decidable (_ ∨ _))

end Model.Zone

namespace Resolver

variable {newRR : NewRR} {resp : Msg} {z : Zone} {name owner : Str} {q : RRType}

section Rendering

theorem toRR_eq_none_iff {r : Model.RR} :
    toRR newRR r name = none ↔ ¬ r.Renders newRR (fqdn name) := by
  unfold toRR Model.RR.Renders
  rcases Model.RR.toMiekg newRR { r with name := fqdn name } with e | rec <;>
    simp [Except.toOption]

theorem render_eq_nil_iff {recs : List Model.RR} : render newRR recs name q = [] ↔
    ∀ r ∈ recs, (q = typeANY ∨ r.type = q) → ¬ r.Renders newRR (fqdn name) := by
  simp only [render, List.filterMap_eq_nil_iff, List.mem_filter, Option.map_eq_none_iff,
    toRR_eq_none_iff, Bool.or_eq_true, decide_eq_true_eq, and_imp]

theorem mem_render_iff {recs : List Model.RR} {rr : Dns.RR} : rr ∈ render newRR recs name q ↔
    ∃ r ∈ recs, (q = typeANY ∨ r.type = q) ∧ r.Renders newRR (fqdn name) ∧
      toRR newRR r name = rr := by
  simp only [render, List.mem_filterMap, List.mem_filter, Bool.or_eq_true, decide_eq_true_eq,
    and_assoc]
  refine exists_congr fun r => and_congr_right fun _ => and_congr_right fun _ => ?_
  rw [← not_not (a := r.Renders newRR (fqdn name)), ← toRR_eq_none_iff]
  rcases toRR newRR r name with _ | rec <;> simp

theorem some_mem_render_iff {recs : List Model.RR} {rec : Record} :
    some rec ∈ render newRR recs name q ↔
      ∃ r ∈ recs, (q = typeANY ∨ r.type = q) ∧ toRR newRR r name = some rec := by
  rw [mem_render_iff]
  refine exists_congr fun r => and_congr_right fun _ => and_congr_right fun _ => ?_
  refine and_iff_right_of_imp fun h => ?_
  by_contra hnone
  rw [toRR_eq_none_iff.mpr hnone] at h
  cases h

abbrev RRset := Sigma fun _ : RRType => List Model.RR

/-- The record sets, rendered at the name one after the other. -/
def renderSets (newRR : NewRR) (sets : List RRset) (name : Str) : List Dns.RR :=
  sets.flatMap fun p => render newRR p.2 name p.1

theorem renderSets_eq_nil_iff {sets : List RRset} : renderSets newRR sets name = [] ↔
    ∀ p ∈ sets, ∀ r ∈ p.2, (p.1 = typeANY ∨ r.type = p.1) → ¬ r.Renders newRR (fqdn name) := by
  simp only [renderSets, List.flatMap_eq_nil_iff, render_eq_nil_iff]

theorem renderSets_append (sets sets' : List RRset) :
    renderSets newRR (sets ++ sets') name =
      renderSets newRR sets name ++ renderSets newRR sets' name :=
  List.flatMap_append

theorem renderSets_singleton (rrs : List Model.RR) :
    renderSets newRR [⟨q, rrs⟩] name = render newRR rrs name q :=
  List.flatMap_singleton ..

theorem appendSets_eq (m : RRsets) (skip : RRType → Bool) :
    appendSets newRR resp m name skip =
      { resp with answer := resp.answer ++
          renderSets newRR (m.entries.filter fun p => !skip p.1) name } := by
  unfold appendSets renderSets
  induction m.entries generalizing resp with
  | nil => simp
  | cons p l ih =>
    rw [List.foldl_cons, ih]
    by_cases hs : skip p.1 = true
    · simp [hs]
    · simp [hs, appendMatching]

theorem answer_appendSets (m : RRsets) (skip : RRType → Bool) :
    (appendSets newRR resp m name skip).answer =
      resp.answer ++ renderSets newRR (m.entries.filter fun p => !skip p.1) name := by
  rw [appendSets_eq]

end Rendering

section Synthesis

theorem rrsetOf_getD (m : Option RRsets) (t : RRType) :
    rrsetOf (some (m.getD ∅)) t = rrsetOf m t := by
  rcases m with _ | m <;> rfl

theorem rrsetOf_eq_nil {m : Option RRsets} (h : (m.getD ∅).entries = []) (t : RRType) :
    rrsetOf m t = [] := by
  rcases m with _ | m
  · rfl
  · have hm : m.lookup t = none := Map.entries_eq_nil_iff.mp h t
    simp [rrsetOf, hm]

theorem wildcardOrNX_of_not_hasWildcard (h : ¬ z.HasWildcard) :
    wildcardOrNX newRR resp z name q = setNegativeSOA newRR resp z.soa z.apex .nameError := by
  obtain ⟨hw, ht⟩ := not_or.mp h
  rw [not_not] at hw ht
  have hwc : rrsetOf (some z.wildcards) q = [] := rrsetOf_eq_nil (m := some z.wildcards) hw q
  have hwt : rrsetOf (z.tunnelAddr.lookup ['*']) q = [] := rrsetOf_eq_nil ht q
  rw [Model.Zone.wildcardTunnel] at ht
  simp [wildcardOrNX, hw, ht, hwt, hwc]

theorem noWildcard_eq_false (h : z.HasWildcard) : (decide (z.wildcards.entries = []) &&
    decide (((z.tunnelAddr.lookup ['*']).getD ∅).entries = [])) = false := by
  rw [Bool.and_eq_false_iff, decide_eq_false_iff_not, decide_eq_false_iff_not]
  exact h

theorem rcode_wildcardOrNX_of_hasWildcard (h : z.HasWildcard) (hr : resp.rcode = .success) :
    (wildcardOrNX newRR resp z name q).rcode = .success := by
  simp only [wildcardOrNX, noWildcard_eq_false h, Bool.false_eq_true, if_false,
    Bool.not_false, if_true]
  split_ifs <;> simp [hr]

theorem wildcardOrNX_of_hasWildcard (hw : z.HasWildcard) (hq : q ≠ typeANY) :
    wildcardOrNX newRR resp z name q =
      if (q = typeA ∨ q = typeAAAA) ∧ rrsetOf (some z.wildcardTunnel) q ≠ [] then
        appendMatching newRR resp (rrsetOf (some z.wildcardTunnel) q) name q
      else if rrsetOf (some z.wildcards) q ≠ [] then
        appendMatching newRR resp (rrsetOf (some z.wildcards) q) name q
      else setNegativeSOA newRR resp z.soa z.apex .success := by
  rw [Model.Zone.wildcardTunnel, rrsetOf_getD]
  simp [wildcardOrNX, noWildcard_eq_false hw, hq]

theorem wildcardOrNX_any (hw : z.HasWildcard) :
    wildcardOrNX newRR resp z name typeANY =
      appendSets newRR
        (appendSets newRR resp z.wildcards name fun t =>
          t = typeCNAME && !decide (z.wildcardTunnel.entries = []))
        z.wildcardTunnel name fun _ => false := by
  simp only [wildcardOrNX, noWildcard_eq_false hw, if_true, Bool.false_eq_true, if_false]
  rfl

/-- The wildcard's record sets that answer a query for a name without a node: for all types, those
of the tunnel in place of an alias; for an address, the tunnel's if it has any. -/
def synthesized (z : Zone) (q : RRType) : List RRset :=
  if q = typeANY then
    (z.wildcards.entries.filter fun p =>
      !(p.1 = typeCNAME && !decide (z.wildcardTunnel.entries = []))) ++ z.wildcardTunnel.entries
  else if (q = typeA ∨ q = typeAAAA) ∧ rrsetOf (some z.wildcardTunnel) q ≠ [] then
    [⟨q, rrsetOf (some z.wildcardTunnel) q⟩]
  else [⟨q, rrsetOf (some z.wildcards) q⟩]

theorem renderSets_synthesized_of_not_hasWildcard (h : ¬ z.HasWildcard) :
    renderSets newRR (synthesized z q) name = [] := by
  obtain ⟨hwc, hwt⟩ := not_or.mp h
  rw [not_not] at hwc hwt
  have hrecs : rrsetOf (some z.wildcards) q = [] := rrsetOf_eq_nil (m := some z.wildcards) hwc q
  have htunnel : rrsetOf (some z.wildcardTunnel) q = [] :=
    rrsetOf_eq_nil (m := some z.wildcardTunnel) hwt q
  unfold synthesized
  split_ifs with hany haddr
  · simp [hwc, hwt, renderSets]
  · exact absurd htunnel haddr.2
  · rw [hrecs, renderSets_singleton]
    rfl

theorem answer_wildcardOrNX : (wildcardOrNX newRR resp z name q).answer =
    resp.answer ++ renderSets newRR (synthesized z q) name := by
  by_cases hw : z.HasWildcard
  · by_cases hq : q = typeANY
    · subst hq
      rw [wildcardOrNX_any hw, answer_appendSets, answer_appendSets, synthesized, if_pos rfl,
        renderSets_append, List.append_assoc]
      simp
    · rw [wildcardOrNX_of_hasWildcard hw hq, synthesized, if_neg hq]
      split_ifs with htunnel hrecs
      · rw [renderSets_singleton]
        rfl
      · rw [renderSets_singleton]
        rfl
      · rw [not_not.mp hrecs, renderSets_singleton, answer_setNegativeSOA]
        simp [render]
  · rw [wildcardOrNX_of_not_hasWildcard hw, answer_setNegativeSOA,
      renderSets_synthesized_of_not_hasWildcard hw, List.append_nil]

theorem answerInZone_of_absent (hr : owner ∉ z.records) (ht : owner ∉ z.tunnelAddr)
    (he : owner ∉ z.ent) :
    answerInZone newRR resp z name owner q = wildcardOrNX newRR resp z name q := by
  rw [← AList.lookup_eq_none] at hr ht
  simp [answerInZone, absentType, hr, ht, he, rrsetOf]

theorem answerInZone_of_not_hasNode (h : ¬ z.HasNode owner) :
    answerInZone newRR resp z name owner q = wildcardOrNX newRR resp z name q := by
  simp only [Model.Zone.HasNode, not_or] at h
  exact answerInZone_of_absent h.1 h.2.1 h.2.2.1

end Synthesis

section Encloser

/-- Some owner strictly between the apex and the name exists. -/
def Enclosed (z : Zone) (owner : Str) : Prop :=
  ∃ anc, anc ≠ [] ∧ '.' :: anc <:+ owner ∧ z.HasNode anc

/-- Below an existing node other than the apex, a name that does not exist is denied iff the zone
has no wildcard. -/
theorem answerAuthoritative_enclosed_iff (newRR : NewRR) (req : Msg) (z : Zone) (name : Str)
    (q : RRType) (hnode : ¬ z.HasNode (relativeOwner name z.apex)) :
    let answered := answerAuthoritative newRR req (some z) name (relativeOwner name z.apex) q
    (Enclosed z (relativeOwner name z.apex) →
      answered.rcode = .nameError ∧ answered.answer = []) ↔
    (Enclosed z (relativeOwner name z.apex) → ¬ z.HasWildcard) := by
  refine forall_congr' fun _ => ?_
  simp only [answerAuthoritative, answerInZone_of_not_hasNode hnode]
  constructor
  · rintro ⟨hcode, -⟩ hw
    rw [rcode_wildcardOrNX_of_hasWildcard hw rfl] at hcode
    cases hcode
  · intro hw
    rw [wildcardOrNX_of_not_hasWildcard hw]
    exact ⟨rcode_setNegativeSOA _ _ _, answer_setNegativeSOA _ _ _⟩

def noTunnels : Mirror.TunnelResolver := fun _ => .error "no such host".toList

def lanAndWildcard : List CFAPI.Record :=
  [{ type := "A".toList, name := "lan.example.com".toList, content := "192.0.2.1".toList },
   { type := "A".toList, name := "*.example.com".toList, content := "192.0.2.9".toList }]

def lanZone : Zone :=
  Mirror.buildZone readLine "example.com".toList [] [] lanAndWildcard noTunnels

def lanOnlyZone : Zone :=
  Mirror.buildZone readLine "example.com".toList [] [] (lanAndWildcard.take 1) noTunnels

/-- The wildcard answers for a name below the host. -/
theorem wildcard_below_host :
    let answered := answerAuthoritative readLine {} (some lanZone) "x.lan.example.com.".toList
      "x.lan".toList typeA
    relativeOwner "x.lan.example.com.".toList lanZone.apex = "x.lan".toList ∧
      ¬ lanZone.HasNode "x.lan".toList ∧ lanZone.HasNode "lan".toList ∧
      answered.rcode = .success ∧
      answered.answer.map (·.map (·.data)) = [some (.a (.v4 0xC0000209))] := by
  decide +kernel

/-- Without the wildcard it is denied. -/
theorem denied_below_host :
    let answered := answerAuthoritative readLine {} (some lanOnlyZone) "x.lan.example.com.".toList
      "x.lan".toList typeA
    Enclosed lanOnlyZone "x.lan".toList ∧ answered.rcode = .nameError ∧ answered.answer = [] := by
  have henc : Enclosed lanOnlyZone "x.lan".toList := ⟨"lan".toList, by decide⟩
  exact ⟨henc, (answerAuthoritative_enclosed_iff readLine {} lanOnlyZone
    "x.lan.example.com.".toList typeA (by decide)).mpr (fun _ => by decide) henc⟩

end Encloser

section Exact

/-- The zone with the wildcard sets stored at an owner as well. -/
def atOwner (z : Zone) (owner : Str) : Zone :=
  { z with
    records := if z.wildcards.entries = [] then z.records else z.records.insert owner z.wildcards
    tunnelAddr :=
      if z.wildcardTunnel.entries = [] then z.tunnelAddr
      else z.tunnelAddr.insert owner z.wildcardTunnel }

/-- The query is one that the records of the wildcard answer by following their alias, if they
are stored at the owner. -/
def FollowsAlias (z : Zone) (owner : Str) (q : RRType) : Prop :=
  rrsetOf (some z.wildcards) typeCNAME ≠ [] ∧ rrsetOf (some z.wildcards) q = [] ∧
    q ≠ typeANY ∧
    if q = typeA ∨ q = typeAAAA then rrsetOf (some z.wildcardTunnel) q = [] else owner ≠ []

instance (z : Zone) (owner : Str) (q : RRType) : Decidable (FollowsAlias z owner q) :=
  inferInstanceAs (Decidable (_ ∧ _ ∧ _ ∧ _))

theorem lookup_atOwner_records (hr : owner ∉ z.records) :
    (atOwner z owner).records.lookup owner =
      if z.wildcards.entries = [] then none else some z.wildcards := by
  unfold atOwner
  dsimp only
  split_ifs
  · exact AList.lookup_eq_none.mpr hr
  · exact AList.lookup_insert _

theorem lookup_atOwner_tunnelAddr (ht : owner ∉ z.tunnelAddr) :
    (atOwner z owner).tunnelAddr.lookup owner =
      if z.wildcardTunnel.entries = [] then none else some z.wildcardTunnel := by
  unfold atOwner
  dsimp only
  split_ifs
  · exact AList.lookup_eq_none.mpr ht
  · exact AList.lookup_insert _

theorem rrsetOf_ite_none {m : RRsets} (t : RRType) :
    rrsetOf (if m.entries = [] then none else some m) t = rrsetOf (some m) t := by
  split_ifs with h
  · exact (rrsetOf_eq_nil (m := some m) h t).symm
  · rfl

theorem getD_ite_none {m : RRsets} : (if m.entries = [] then none else some m).getD ∅ = m := by
  split_ifs with h
  · exact AList.ext h.symm
  · rfl

theorem isSome_ite_none {m : RRsets} :
    (if m.entries = [] then none else some m).isSome = !decide (m.entries = []) := by
  split_ifs with h <;> simp [h]

theorem absentType_atOwner (hw : z.HasWildcard) (hr : owner ∉ z.records)
    (ht : owner ∉ z.tunnelAddr) :
    absentType newRR resp (atOwner z owner) name owner q =
      setNegativeSOA newRR resp z.soa z.apex .success := by
  rw [absentType, lookup_atOwner_records hr, lookup_atOwner_tunnelAddr ht, if_pos]
  · rfl
  · rcases hw with h | h <;> simp [h]

theorem answerInZone_any
    (h : (z.records.lookup owner).isSome || (z.tunnelAddr.lookup owner).isSome) :
    answerInZone newRR resp z name owner typeANY =
      appendSets newRR
        (appendSets newRR resp ((z.records.lookup owner).getD ∅) name fun t =>
          t = typeCNAME && (z.tunnelAddr.lookup owner).isSome)
        ((z.tunnelAddr.lookup owner).getD ∅) name fun _ => false := by
  have hne : typeANY ≠ typeCNAME ∧ typeANY ≠ typeA ∧ typeANY ≠ typeAAAA := by decide
  simp [answerInZone, h, hne]

theorem answerInZone_atOwner (hw : z.HasWildcard) (hr : owner ∉ z.records)
    (ht : owner ∉ z.tunnelAddr)
    (hdisj : ∀ t, rrsetOf (some z.wildcards) t = [] ∨ rrsetOf (some z.wildcardTunnel) t = []) :
    answerInZone newRR resp (atOwner z owner) name owner q =
      if FollowsAlias z owner q then
        chaseCNAME newRR (atOwner z owner) q (maxCNAMEChain + 1) resp owner name
      else wildcardOrNX newRR resp z name q := by
  by_cases hany : q = typeANY
  · subst hany
    have hex : ((atOwner z owner).records.lookup owner).isSome ||
        ((atOwner z owner).tunnelAddr.lookup owner).isSome := by
      rw [lookup_atOwner_records hr, lookup_atOwner_tunnelAddr ht]
      rcases hw with h | h <;> simp [h]
    rw [if_neg fun h => h.2.2.1 rfl, answerInZone_any hex, wildcardOrNX_any hw,
      lookup_atOwner_records hr, lookup_atOwner_tunnelAddr ht, getD_ite_none, getD_ite_none,
      isSome_ite_none]
  rw [wildcardOrNX_of_hasWildcard hw hany]
  simp only [answerInZone, absentType_atOwner hw hr ht, lookup_atOwner_records hr,
    lookup_atOwner_tunnelAddr ht, rrsetOf_ite_none, FollowsAlias]
  by_cases hcname : q = typeCNAME
  · subst hcname
    have hA : ¬ (typeCNAME = typeA ∨ typeCNAME = typeAAAA) := by decide
    by_cases hC : rrsetOf (some z.wildcards) typeCNAME = [] <;> simp [hC, hA]
  by_cases haddr : q = typeA ∨ q = typeAAAA
  · rcases hdisj q with hW | hT
    · by_cases hT : rrsetOf (some z.wildcardTunnel) q = [] <;>
        by_cases hC : rrsetOf (some z.wildcards) typeCNAME = [] <;>
          simp [hcname, haddr, hany, hW, hT, hC]
    · by_cases hW : rrsetOf (some z.wildcards) q = [] <;>
        by_cases hC : rrsetOf (some z.wildcards) typeCNAME = [] <;>
          simp [hcname, haddr, hany, hW, hT, hC]
  · by_cases hW : rrsetOf (some z.wildcards) q = [] <;>
      by_cases hC : rrsetOf (some z.wildcards) typeCNAME = [] <;>
        by_cases ho : owner = [] <;> simp [hcname, haddr, hany, hW, hC, ho]

theorem wildcardOrNX_of_followsAlias (hw : z.HasWildcard) (hf : FollowsAlias z owner q) :
    wildcardOrNX newRR resp z name q = setNegativeSOA newRR resp z.soa z.apex .success := by
  obtain ⟨-, hq, hany, haddr⟩ := hf
  rw [wildcardOrNX_of_hasWildcard hw hany, if_neg, if_neg (not_not_intro hq)]
  rintro ⟨h, hT⟩
  rw [if_pos h] at haddr
  exact hT haddr

theorem chaseCNAME_extends (steps : ℕ) (resp : Msg) (owner name : Str) :
    (chaseCNAME newRR z q (steps + 1) resp owner name).rcode = resp.rcode ∧
      resp.answer ++ render newRR (rrsetOf (z.records.lookup owner) typeCNAME) name typeCNAME <+:
        (chaseCNAME newRR z q (steps + 1) resp owner name).answer := by
  induction steps generalizing resp owner name with
  | zero =>
    unfold chaseCNAME
    split
    next h => simp [h, render]
    next h =>
      rw [h]
      dsimp only [chaseCNAME]
      split_ifs <;> exact ⟨rfl, by simp [appendMatching]⟩
  | succ steps ih =>
    unfold chaseCNAME
    split
    next h => simp [h, render]
    next h =>
      rw [h]
      dsimp only
      split_ifs
      any_goals exact ⟨rfl, by simp [appendMatching]⟩
      obtain ⟨hcode, hans⟩ := ih _ _ _
      exact ⟨hcode, (List.prefix_append _ _).trans hans⟩

theorem mem_render {recs : List Model.RR} {r : Model.RR} (hr : r ∈ recs) (ht : r.type = q)
    (hrender : r.Renders newRR (fqdn name)) : ∃ rr, rr ∈ render newRR recs name q := by
  exact ⟨_, mem_render_iff.mpr ⟨r, hr, Or.inr ht, hrender, rfl⟩⟩

/-- The wildcard answers like its records stored at the name itself, unless these answer by
following an alias. -/
theorem answerAuthoritative_wildcard_eq_iff (newRR : NewRR) (req : Msg) (z : Zone)
    (name owner : Str) (q : RRType) (hw : z.HasWildcard)
    (hdisj : ∀ t, rrsetOf (some z.wildcards) t = [] ∨ rrsetOf (some z.wildcardTunnel) t = [])
    (hr : owner ∉ z.records) (ht : owner ∉ z.tunnelAddr) (he : owner ∉ z.ent)
    (hcname : ∀ r ∈ rrsetOf (some z.wildcards) typeCNAME,
      r.type = typeCNAME ∧ r.Renders newRR (fqdn name)) :
    let wild := answerAuthoritative newRR req (some z) name owner q
    let exact := answerAuthoritative newRR req (some (atOwner z owner)) name owner q
    (wild.rcode = exact.rcode ∧ ∀ rr, rr ∈ wild.answer ↔ rr ∈ exact.answer) ↔
      ¬ FollowsAlias z owner q := by
  simp only [answerAuthoritative, answerInZone_of_absent hr ht he,
    answerInZone_atOwner hw hr ht hdisj]
  split_ifs with hf
  · refine iff_of_false ?_ (not_not_intro hf)
    rintro ⟨-, hans⟩
    obtain ⟨r, hmem⟩ := List.exists_mem_of_ne_nil _ hf.1
    obtain ⟨htype, hrender⟩ := hcname r hmem
    obtain ⟨rr, hrr⟩ := mem_render hmem htype hrender
    have hchased := (@chaseCNAME_extends newRR (atOwner z owner) q maxCNAMEChain
      { reply req with authoritative := true } owner name).2
    rw [lookup_atOwner_records hr, rrsetOf_ite_none] at hchased
    have hwild := (hans rr).mpr (hchased.subset (List.mem_append_right _ hrr))
    rw [wildcardOrNX_of_followsAlias hw hf, answer_setNegativeSOA] at hwild
    exact List.not_mem_nil hwild
  · exact iff_of_true ⟨rfl, fun _ => Iff.rfl⟩ hf

def aliasZone : Zone :=
  Mirror.buildZone readLine "example.com".toList [] []
    [{ type := "CNAME".toList, name := "*.example.com".toList,
       content := "www.example.com".toList },
     { type := "A".toList, name := "www.example.com".toList, content := "192.0.2.1".toList }]
    noTunnels

/-- The address of the host is not found through the wildcard, and is through its alias stored
at the name. -/
theorem wildcard_alias_not_followed :
    let wild := answerAuthoritative readLine {} (some aliasZone) "x.example.com.".toList
      ['x'] typeA
    let exact := answerAuthoritative readLine {} (some (atOwner aliasZone ['x']))
      "x.example.com.".toList ['x'] typeA
    aliasZone.HasWildcard ∧ ¬ aliasZone.HasNode ['x'] ∧
      wild.rcode = .success ∧ wild.answer = [] ∧
      exact.answer.map (·.map (·.data)) =
        [some (.text "www.example.com.".toList), some (.a (.v4 0xC0000201))] := by
  decide +kernel

theorem wildcard_alias_itself :
    let wild := answerAuthoritative readLine {} (some aliasZone) "x.example.com.".toList
      ['x'] typeCNAME
    let exact := answerAuthoritative readLine {} (some (atOwner aliasZone ['x']))
      "x.example.com.".toList ['x'] typeCNAME
    wild.rcode = exact.rcode ∧ ∀ rr, rr ∈ wild.answer ↔ rr ∈ exact.answer := by
  refine (answerAuthoritative_wildcard_eq_iff readLine {} aliasZone "x.example.com.".toList
    ['x'] typeCNAME (by decide) (fun t => Or.inr ?_) (by decide) (by decide) (by decide) ?_).mpr
    (by decide)
  · exact rrsetOf_eq_nil (m := some aliasZone.wildcardTunnel) (by decide) t
  · intro r hr
    obtain rfl := List.mem_singleton.mp (show r ∈ [_] from hr)
    exact ⟨by decide, _, rfl⟩

end Exact

end Resolver

end SplitDNS
