import SplitDNS.Resolver.Wildcard

/-! # Owners that vanish

An owner whose only records are aliases of a tunnel is in the zone only by the
addresses the tunnel resolver presents for it. When there are none it is not a
node at all, and the queries for it are denied or answered from the wildcard.
Every other owner with an accepted record is answered from its own records and
from those its aliases lead to.
-/

namespace SplitDNS.Resolver

open Go Go.Strings Dns Model Mirror

/-- A record of the name: stored at its owner, or led to by an alias stored there. -/
inductive OwnRecord (newRR : NewRR) (z : Zone) : Str → Str → Dns.RR → Prop
  | stored {name owner : Str} {t : RRType} {r : Model.RR} :
    r ∈ rrsetOf (z.records.lookup owner) t → OwnRecord newRR z name owner (toRR newRR r name)
  | tunnel {name owner : Str} {t : RRType} {r : Model.RR} :
    r ∈ rrsetOf (z.tunnelAddr.lookup owner) t → OwnRecord newRR z name owner (toRR newRR r name)
  | follow {name owner : Str} {cn : Model.RR} {rr : Dns.RR} :
    cn ∈ rrsetOf (z.records.lookup owner) typeCNAME →
    OwnRecord newRR z (targetOf cn) (relativeOwner (targetOf cn) z.apex) rr →
    OwnRecord newRR z name owner rr

variable {newRR : NewRR} {resp : Msg} {z : Zone} {name owner : Str} {q : RRType} {rr : Dns.RR}

section Own

theorem exists_of_mem_render {recs : List Model.RR} (h : rr ∈ render newRR recs name q) :
    ∃ r ∈ recs, toRR newRR r name = rr := by
  obtain ⟨r, hr, -, -, hrr⟩ := mem_render_iff.mp h
  exact ⟨r, hr, hrr⟩

theorem mem_answer_appendSets {m : RRsets} {skip : RRType → Bool} :
    rr ∈ (appendSets newRR resp m name skip).answer ↔
      rr ∈ resp.answer ∨ ∃ p ∈ m.entries, skip p.1 = false ∧ rr ∈ render newRR p.2 name p.1 := by
  rw [answer_appendSets, List.mem_append]
  simp only [renderSets, List.mem_flatMap, List.mem_filter, Bool.not_eq_true', and_assoc]

theorem mem_rrsetOf_iff {m : RRsets} {t : RRType} {r : Model.RR} :
    r ∈ rrsetOf (some m) t ↔ ∃ p ∈ m.entries, p.1 = t ∧ r ∈ p.2 := by
  constructor
  · intro h
    rcases hl : m.lookup t with _ | rrs
    · simp [rrsetOf, hl] at h
    · refine ⟨⟨t, rrs⟩, Map.lookup_eq_some_iff_mem_entries.mp hl, rfl, ?_⟩
      simpa [rrsetOf, hl] using h
  · rintro ⟨⟨t, rrs⟩, hp, rfl, hr⟩
    have hl : m.lookup t = some rrs := Map.lookup_eq_some_iff_mem_entries.mpr hp
    simpa [rrsetOf, hl] using hr

theorem ownRecord_of_mem_chaseCNAME (steps : ℕ) (resp : Msg) (owner name : Str)
    (h : rr ∈ (chaseCNAME newRR z q steps resp owner name).answer) :
    rr ∈ resp.answer ∨ OwnRecord newRR z name owner rr := by
  induction steps generalizing resp owner name with
  | zero => exact Or.inl h
  | succ steps ih =>
    have halias : ∀ {r}, rr ∈ render newRR (rrsetOf (z.records.lookup owner) typeCNAME) name r →
        OwnRecord newRR z name owner rr := by
      intro _ h
      obtain ⟨r, hr, rfl⟩ := exists_of_mem_render h
      exact .stored hr
    unfold chaseCNAME at h
    split at h
    · exact Or.inl h
    next cn cns hcn =>
      have hmem : cn ∈ rrsetOf (z.records.lookup owner) typeCNAME := by simp [hcn]
      rw [← hcn] at h
      dsimp only at h
      -- what is in the reply before the target is looked up
      have hstart : rr ∈ (appendMatching newRR resp (rrsetOf (z.records.lookup owner) typeCNAME)
          name typeCNAME).answer → rr ∈ resp.answer ∨ OwnRecord newRR z name owner rr :=
        fun h => (List.mem_append.mp h).imp_right halias
      split_ifs at h
      · exact hstart h
      · rcases List.mem_append.mp h with h | h
        · exact hstart h
        · obtain ⟨r, hr, rfl⟩ := exists_of_mem_render h
          exact Or.inr (.follow hmem (.stored hr))
      · rcases List.mem_append.mp h with h | h
        · exact hstart h
        · obtain ⟨r, hr, rfl⟩ := exists_of_mem_render h
          exact Or.inr (.follow hmem (.tunnel hr))
      · rcases ih _ _ _ h with h | h
        · exact hstart h
        · exact Or.inr (.follow hmem h)
      · exact hstart h

theorem absentType_of_exists (h : (z.records.lookup owner).isSome ∨
    (z.tunnelAddr.lookup owner).isSome ∨ owner ∈ z.ent) :
    absentType newRR resp z name owner q = setNegativeSOA newRR resp z.soa z.apex .success := by
  rw [absentType, if_pos]
  simpa [or_assoc] using h

theorem answerInZone_of_exists (hr : resp.rcode = .success) (ha : resp.answer = [])
    (h : (z.records.lookup owner).isSome ∨ (z.tunnelAddr.lookup owner).isSome ∨ owner ∈ z.ent) :
    (answerInZone newRR resp z name owner q).rcode = .success ∧
      ∀ rr ∈ (answerInZone newRR resp z name owner q).answer, OwnRecord newRR z name owner rr := by
  have hstored : ∀ t, ∀ rr ∈ (appendMatching newRR resp (rrsetOf (z.records.lookup owner) t) name
      t).answer, OwnRecord newRR z name owner rr := by
    intro t rr h
    rw [appendMatching, ha] at h
    obtain ⟨r, hr, rfl⟩ := exists_of_mem_render h
    exact .stored hr
  have hchase : ∀ rr ∈ (chaseCNAME newRR z q (maxCNAMEChain + 1) resp owner name).answer,
      OwnRecord newRR z name owner rr := by
    intro rr h
    exact (ownRecord_of_mem_chaseCNAME _ _ _ _ h).resolve_left (by simp [ha])
  have hcode := (@chaseCNAME_extends newRR z q maxCNAMEChain resp owner name).1.trans hr
  refine answerInZone_cases (fun m => m.rcode = .success ∧
    ∀ rr ∈ m.answer, OwnRecord newRR z name owner rr) (fun t => ⟨hr, hstored t⟩) ?_
    ⟨hcode, hchase⟩ ?_ ?_
  · refine ⟨hr, fun rr h => ?_⟩
    rw [appendMatching, ha] at h
    obtain ⟨r, hr, rfl⟩ := exists_of_mem_render h
    exact .tunnel hr
  · refine ⟨by simp [hr], fun rr h => ?_⟩
    rw [mem_answer_appendSets, mem_answer_appendSets, ha] at h
    rcases h with (h | ⟨p, hp, -, h⟩) | ⟨p, hp, -, h⟩
    · simp at h
    · obtain ⟨r, hr, rfl⟩ := exists_of_mem_render h
      have := mem_rrsetOf_iff.mpr ⟨p, hp, rfl, hr⟩
      rw [rrsetOf_getD] at this
      exact .stored this
    · obtain ⟨r, hr, rfl⟩ := exists_of_mem_render h
      have := mem_rrsetOf_iff.mpr ⟨p, hp, rfl, hr⟩
      rw [rrsetOf_getD] at this
      exact .tunnel this
  · rw [absentType_of_exists h]
    simp [ha]

theorem not_ownRecord_of_absent (hr : owner ∉ z.records) (ht : owner ∉ z.tunnelAddr) :
    ¬ OwnRecord newRR z name owner rr := by
  rw [← AList.lookup_eq_none] at hr ht
  rintro (h | h | ⟨h, -⟩)
  · simp [hr, rrsetOf] at h
  · simp [ht, rrsetOf] at h
  · simp [hr, rrsetOf] at h

end Own

section Silent

/-- The records of a set are all of another type than it says or do not render at the name. -/
def Mute (newRR : NewRR) (m : RRsets) (name : Str) : Prop :=
  ∀ t, ∀ r ∈ rrsetOf (some m) t, (t = typeANY ∨ r.type = t) → ¬ r.Renders newRR (fqdn name)

theorem answer_wildcardOrNX_eq_nil_iff (ha : resp.answer = []) :
    (∀ q, (wildcardOrNX newRR resp z name q).answer = []) ↔
      Mute newRR z.wildcards name ∧ Mute newRR z.wildcardTunnel name := by
  simp only [answer_wildcardOrNX, ha, List.nil_append, renderSets_eq_nil_iff]
  constructor
  · intro h
    constructor
    · intro t r hr
      by_cases hcname : t = typeCNAME
      · subst hcname
        have hA : ¬ (typeCNAME = typeA ∨ typeCNAME = typeAAAA) := by decide
        refine h typeCNAME ⟨typeCNAME, rrsetOf (some z.wildcards) typeCNAME⟩ ?_ r hr
        rw [synthesized, if_neg (by decide), if_neg fun h => hA h.1]
        exact List.mem_singleton_self _
      · obtain ⟨p, hp, rfl, hrp⟩ := mem_rrsetOf_iff.mp hr
        exact h typeANY p (by simp [synthesized, hp, hcname]) r hrp
    · intro t r hr
      obtain ⟨p, hp, rfl, hrp⟩ := mem_rrsetOf_iff.mp hr
      exact h typeANY p (by simp [synthesized, hp]) r hrp
  · rintro ⟨hwc, hwt⟩ q p hp r hr
    unfold synthesized at hp
    split_ifs at hp
    · rcases List.mem_append.mp hp with hp | hp
      · exact hwc p.1 r (mem_rrsetOf_iff.mpr ⟨p, List.mem_of_mem_filter hp, rfl, hr⟩)
      · exact hwt p.1 r (mem_rrsetOf_iff.mpr ⟨p, hp, rfl, hr⟩)
    · obtain rfl := List.mem_singleton.mp hp
      exact hwt q r hr
    · obtain rfl := List.mem_singleton.mp hp
      exact hwc q r hr

end Silent

section Built

variable {apex zoneID : Str} {tunnelSuffixes : List Str} {recs : List CFAPI.Record}
  {tr : TunnelResolver}

theorem wildcardTunnel_buildZone :
    (buildZone newRR apex zoneID tunnelSuffixes recs tr).wildcardTunnel =
      if Tunnelled newRR (fqdn (toLower apex)) zoneID tunnelSuffixes recs ['*'] then
        Map.group (tunnelRecords tr (fqdn (toLower apex)) ['*'])
      else ∅ := by
  rw [Model.Zone.wildcardTunnel, lookup_buildZone_tunnelAddr]
  split_ifs
  · unfold presented
    split_ifs with h
    · rw [h]
      rfl
    · rfl
  · rfl

theorem hasWildcard_buildZone_iff :
    (buildZone newRR apex zoneID tunnelSuffixes recs tr).HasWildcard ↔
      wildcardRecords newRR (fqdn (toLower apex)) zoneID tunnelSuffixes recs tr ≠ [] := by
  simp only [Model.Zone.HasWildcard, wildcardTunnel_buildZone, buildZone_wildcards, wildcardRecords,
    sets, ne_eq, Map.group_entries_eq_nil_iff, List.append_eq_nil_iff, not_and_or]
  refine or_congr_right (not_congr ?_)
  split_ifs
  · exact Map.group_entries_eq_nil_iff
  · exact iff_of_true rfl rfl

theorem ne_any_of_mem_tunnelRecords {p : RRType × Model.RR}
    (hp : p ∈ tunnelRecords tr apex owner) : ¬ p.1 = typeANY := by
  rcases type_of_mem_tunnelRecords hp with h | h
  · rw [h]
    decide
  · rw [h]
    decide

theorem mute_group_iff {l : List (RRType × Model.RR)} : Mute newRR (Map.group l) name ↔
    ∀ p ∈ l, (p.1 = typeANY ∨ p.2.type = p.1) → ¬ p.2.Renders newRR (fqdn name) := by
  simp only [Mute, rrsetOf, Option.bind_some, Map.lookup_group_getD, List.mem_map, List.mem_filter,
    decide_eq_true_eq]
  constructor
  · intro h p hp
    exact h p.1 p.2 ⟨p, ⟨hp, rfl⟩, rfl⟩
  · rintro h _ _ ⟨p, ⟨hp, rfl⟩, rfl⟩
    exact h p hp

theorem mute_wildcard_iff :
    Mute newRR (buildZone newRR apex zoneID tunnelSuffixes recs tr).wildcards name ∧
      Mute newRR (buildZone newRR apex zoneID tunnelSuffixes recs tr).wildcardTunnel name ↔
    ∀ p ∈ wildcardRecords newRR (fqdn (toLower apex)) zoneID tunnelSuffixes recs tr,
      p.2.type = p.1 → ¬ p.2.Renders newRR (fqdn name) := by
  rw [wildcardTunnel_buildZone, buildZone_wildcards, sets, mute_group_iff, wildcardRecords,
    List.forall_mem_append]
  refine and_congr ?_ ?_
  · simp only [List.forall_mem_map, or_true, true_imp_iff]
  · split_ifs
    · rw [mute_group_iff]
      refine forall₂_congr fun p hp => ?_
      rw [or_iff_right (ne_any_of_mem_tunnelRecords hp)]
    · simp [Mute, rrsetOf]

theorem accepted_node_iff (ho : owner ≠ ['*'])
    (hacc : Accepted newRR (fqdn (toLower apex)) zoneID recs owner) :
    (owner ∈ (buildZone newRR apex zoneID tunnelSuffixes recs tr).records ∨
      owner ∈ (buildZone newRR apex zoneID tunnelSuffixes recs tr).tunnelAddr ∨
      owner ∈ (buildZone newRR apex zoneID tunnelSuffixes recs tr).ent) ↔
    storedAt newRR (fqdn (toLower apex)) zoneID tunnelSuffixes recs owner ≠ [] ∨
      tunnelRecords tr (fqdn (toLower apex)) owner ≠ [] ∨
      owner ≠ [] ∧ ∃ o ≠ ['*'],
        storedAt newRR (fqdn (toLower apex)) zoneID tunnelSuffixes recs o ≠ [] ∧
          '.' :: owner <:+ o := by
  rw [mem_buildZone_ent, mem_buildZone_tunnelAddr]
  simp only [mem_buildZone_records, and_assoc]
  have hcases :=
    (@accepted_iff newRR (fqdn (toLower apex)) zoneID tunnelSuffixes recs owner).mp hacc
  constructor
  · rintro (⟨-, h⟩ | ⟨-, h⟩ | ⟨hne, -, h⟩)
    · exact Or.inl h
    · exact Or.inr (Or.inl h)
    · exact Or.inr (Or.inr ⟨hne, h⟩)
  · intro h
    by_cases hst : storedAt newRR (fqdn (toLower apex)) zoneID tunnelSuffixes recs owner = []
    · -- without a stored record the owner is that of a tunnel
      have htunnel := hcases.resolve_left (not_not.mpr hst)
      rcases h with h | h | ⟨hne, h⟩
      · exact absurd hst h
      · exact Or.inr (Or.inl ⟨htunnel, h⟩)
      · exact Or.inr (Or.inr ⟨hne, fun h' => h'.2 hst, h⟩)
    · exact Or.inl ⟨ho, hst⟩

end Built

/-- An owner with a mirrored record is answered, and from its own records only, iff it has a record
that is no alias of a tunnel, or the tunnel resolver has an address for it, or it is above an owner
with such a record, or all the wildcard does is keep it from being denied. -/
theorem accepted_owner_answered_iff (newRR : NewRR) (apex zoneID : Str) (tunnelSuffixes : List Str)
    (recs : List CFAPI.Record) (tr : TunnelResolver) (req : Msg) (name owner : Str)
    (ho : owner ≠ ['*']) (hacc : Accepted newRR (fqdn (toLower apex)) zoneID recs owner) :
    let z := buildZone newRR apex zoneID tunnelSuffixes recs tr
    let stored := storedAt newRR (fqdn (toLower apex)) zoneID tunnelSuffixes recs
    let wildcard := wildcardRecords newRR (fqdn (toLower apex)) zoneID tunnelSuffixes recs tr
    (∀ q, (answerAuthoritative newRR req (some z) name owner q).rcode ≠ .nameError ∧
      ∀ rr ∈ (answerAuthoritative newRR req (some z) name owner q).answer,
        OwnRecord newRR z name owner rr) ↔
    stored owner ≠ [] ∨ tunnelRecords tr (fqdn (toLower apex)) owner ≠ [] ∨
      (owner ≠ [] ∧ ∃ o ≠ ['*'], stored o ≠ [] ∧ '.' :: owner <:+ o) ∨
      (wildcard ≠ [] ∧ ∀ p ∈ wildcard, p.2.type = p.1 → ¬ p.2.Renders newRR (fqdn name)) := by
  intro z stored wildcard
  rw [← or_assoc, ← or_assoc, or_assoc (a := stored owner ≠ []), ← accepted_node_iff ho hacc]
  by_cases hex : owner ∈ z.records ∨ owner ∈ z.tunnelAddr ∨ owner ∈ z.ent
  · refine iff_of_true (fun q => ?_) (Or.inl hex)
    simp only [← AList.lookup_isSome] at hex
    obtain ⟨hcode, hown⟩ := @answerInZone_of_exists newRR
      { reply req with authoritative := true } z name owner q rfl rfl hex
    refine ⟨fun h => ?_, hown⟩
    rw [answerAuthoritative, hcode] at h
    cases h
  · rw [or_iff_right hex]
    simp only [not_or] at hex
    obtain ⟨hr, ht, he⟩ := hex
    simp only [answerAuthoritative, answerInZone_of_absent hr ht he, not_ownRecord_of_absent hr ht,
      imp_false, ← List.eq_nil_iff_forall_not_mem]
    rw [← mute_wildcard_iff, ← hasWildcard_buildZone_iff]
    by_cases hw : z.HasWildcard
    · rw [and_iff_right hw, ← @answer_wildcardOrNX_eq_nil_iff newRR
        { reply req with authoritative := true } z name rfl]
      refine forall_congr' fun q => and_iff_right ?_
      rw [rcode_wildcardOrNX_of_hasWildcard hw rfl]
      decide
    · refine iff_of_false (fun h => (h typeA).1 ?_) fun h => hw h.1
      rw [wildcardOrNX_of_not_hasWildcard hw, rcode_setNegativeSOA]

section Outage

def tunnelSuffix : Str := ".cfargotunnel.com.".toList

def tunnelAndWildcard : List CFAPI.Record :=
  [{ type := "CNAME".toList, name := "app.example.com".toList,
     content := "id.cfargotunnel.com".toList },
   { type := "A".toList, name := "*.example.com".toList, content := "192.0.2.9".toList }]

/-- While the tunnel resolver fails, the host is answered from the wildcard, and denied if there
is none. -/
theorem tunnel_host_vanishes :
    let z := buildZone readLine "example.com".toList [] [tunnelSuffix] tunnelAndWildcard noTunnels
    let z' := buildZone readLine "example.com".toList [] [tunnelSuffix] (tunnelAndWildcard.take 1)
      noTunnels
    let ask z :=
      answerAuthoritative readLine {} (some z) "app.example.com.".toList "app".toList typeA
    relativeOwner "app.example.com.".toList z.apex = "app".toList ∧
      (tunnelAndWildcard.take 1).all (fun r => (toModelRR readLine r []).isSome ∧
        relOwner r.name z.apex = "app".toList) ∧
      ((ask z).rcode, (ask z).answer.map (·.map (·.data))) =
        (.success, [some (.a (.v4 0xC0000209))]) ∧
      (ask z').rcode = .nameError := by
  decide +kernel

/-- A resolver that presents an address for every name. -/
def oneAddress : TunnelResolver := fun _ => .ok ([.v4 0xC0000207], [])

theorem tunnel_host_answered :
    let z := buildZone readLine "example.com".toList [] [tunnelSuffix] tunnelAndWildcard oneAddress
    let answered := answerAuthoritative readLine {} (some z) "app.example.com.".toList
      "app".toList typeA
    answered.rcode ≠ .nameError ∧
      ∀ rr ∈ answered.answer, OwnRecord readLine z "app.example.com.".toList "app".toList rr :=
  (accepted_owner_answered_iff readLine "example.com".toList [] [tunnelSuffix] tunnelAndWildcard
    oneAddress {} "app.example.com.".toList "app".toList (by decide)
    ⟨_, List.mem_cons_self, by decide, by decide⟩).mpr (Or.inr (Or.inl (by decide))) typeA

end Outage

end SplitDNS.Resolver
