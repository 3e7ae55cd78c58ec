import Mathlib.Data.List.Induction
import SplitDNS.Dns.Labels
import SplitDNS.Mirror.Zone

/-! # The nodes of a built zone

What a built zone holds, read off the record list and the tunnel resolver: the
record sets stored at an owner, the wildcard sets, the addresses of the tunnel
owners and the empty non-terminals.
-/

namespace SplitDNS.Mirror

open Go Go.Netip Go.Strings Dns Model

def sets (rrs : List Model.RR) : RRsets := Map.group (rrs.map fun rr => (rr.type, rr))

theorem sets_concat (rrs : List Model.RR) (rr : Model.RR) :
    sets (rrs ++ [rr]) = Map.appendAt (sets rrs) rr.type rr := by
  simp [sets, Map.group_concat]

section Scanning

variable (newRR : NewRR) (apex zoneID : Str) (tunnelSuffixes : List Str)

def isTunnelAlias (rr : Model.RR) : Bool :=
  rr.type = typeCNAME && isTunnelTarget rr.content tunnelSuffixes

/-- The record as it is stored, nothing for the alias of a tunnel. -/
def storedRR (r : CFAPI.Record) : Option Model.RR :=
  (toModelRR newRR r zoneID).filter fun rr => !isTunnelAlias tunnelSuffixes rr

/-- The records stored at an owner, in the order of the list. -/
def storedAt (recs : List CFAPI.Record) (owner : Str) : List Model.RR :=
  (recs.filter fun r => relOwner r.name apex = owner).filterMap
    (storedRR newRR zoneID tunnelSuffixes)

def Tunnelled (recs : List CFAPI.Record) (owner : Str) : Prop :=
  ∃ r ∈ recs, relOwner r.name apex = owner ∧
    ∃ rr ∈ toModelRR newRR r zoneID, isTunnelAlias tunnelSuffixes rr = true

instance (recs : List CFAPI.Record) (owner : Str) :
    Decidable (Tunnelled newRR apex zoneID tunnelSuffixes recs owner) :=
  inferInstanceAs (Decidable (∃ r ∈ recs, _ ∧ ∃ rr ∈ toModelRR newRR r zoneID, _))

def Accepted (recs : List CFAPI.Record) (owner : Str) : Prop :=
  ∃ r ∈ recs, relOwner r.name apex = owner ∧ (toModelRR newRR r zoneID).isSome

structure Scanned (recs : List CFAPI.Record) (s : Scan) : Prop where
  atApex : s.zone.apex = apex
  records : ∀ o, s.zone.records.lookup o =
    if o = ['*'] ∨ storedAt newRR apex zoneID tunnelSuffixes recs o = [] then none
    else some (sets (storedAt newRR apex zoneID tunnelSuffixes recs o))
  wildcards : s.zone.wildcards = sets (storedAt newRR apex zoneID tunnelSuffixes recs ['*'])
  tunnelOwners : ∀ o, o ∈ s.tunnelOwners ↔ Tunnelled newRR apex zoneID tunnelSuffixes recs o
  tunnelAddr : s.zone.tunnelAddr = ∅

variable {newRR apex zoneID tunnelSuffixes} {recs : List CFAPI.Record} {r : CFAPI.Record}
  {rr : Model.RR} {s : Scan}

theorem storedAt_concat (o : Str) :
    storedAt newRR apex zoneID tunnelSuffixes (recs ++ [r]) o =
      storedAt newRR apex zoneID tunnelSuffixes recs o ++
        if relOwner r.name apex = o then (storedRR newRR zoneID tunnelSuffixes r).toList
        else [] := by
  unfold storedAt
  rw [List.filter_append, List.filterMap_append]
  congr 1
  split_ifs with h
  · rcases hs : storedRR newRR zoneID tunnelSuffixes r with _ | rr <;> simp [h, hs]
  · simp [h]

theorem tunnelled_concat (o : Str) :
    Tunnelled newRR apex zoneID tunnelSuffixes (recs ++ [r]) o ↔
      Tunnelled newRR apex zoneID tunnelSuffixes recs o ∨ relOwner r.name apex = o ∧
        ∃ rr ∈ toModelRR newRR r zoneID, isTunnelAlias tunnelSuffixes rr = true := by
  simp only [Tunnelled, List.mem_append, List.mem_singleton, or_and_right, exists_or,
    exists_eq_left]

theorem accepted_iff {o : Str} : Accepted newRR apex zoneID recs o ↔
    storedAt newRR apex zoneID tunnelSuffixes recs o ≠ [] ∨
      Tunnelled newRR apex zoneID tunnelSuffixes recs o := by
  constructor
  · rintro ⟨r, hr, ho, hacc⟩
    obtain ⟨rr, hrr⟩ := Option.isSome_iff_exists.mp hacc
    rcases ht : isTunnelAlias tunnelSuffixes rr with _ | _
    · refine Or.inl (List.ne_nil_of_mem (a := rr) (List.mem_filterMap.mpr ⟨r, ?_, ?_⟩))
      · exact List.mem_filter.mpr ⟨hr, by simpa using ho⟩
      · simp [storedRR, hrr, ht, Option.filter]
    · exact Or.inr ⟨r, hr, ho, rr, hrr, ht⟩
  · rintro (h | ⟨r, hr, ho, rr, hrr, -⟩)
    · obtain ⟨rr, hrr⟩ := List.exists_mem_of_ne_nil _ h
      obtain ⟨r, hr, hstored⟩ := List.mem_filterMap.mp hrr
      obtain ⟨hr, ho⟩ := List.mem_filter.mp hr
      refine ⟨r, hr, by simpa using ho, ?_⟩
      rw [storedRR, Option.filter_eq_some_iff] at hstored
      simp [hstored.1]
    · exact ⟨r, hr, ho, by simp [Option.mem_def.mp hrr]⟩

theorem Scanned.skip (h : Scanned newRR apex zoneID tunnelSuffixes recs s)
    (hr : storedRR newRR zoneID tunnelSuffixes r = none)
    {owners : KeySet Str}
    (ho : ∀ o, o ∈ owners ↔ Tunnelled newRR apex zoneID tunnelSuffixes (recs ++ [r]) o) :
    Scanned newRR apex zoneID tunnelSuffixes (recs ++ [r]) { s with tunnelOwners := owners } := by
  have hsame : ∀ o, storedAt newRR apex zoneID tunnelSuffixes (recs ++ [r]) o =
      storedAt newRR apex zoneID tunnelSuffixes recs o := by
    intro o
    simp [storedAt_concat, hr]
  exact ⟨h.atApex, fun o => by rw [hsame]; exact h.records o, by rw [hsame]; exact h.wildcards, ho,
    h.tunnelAddr⟩

theorem lookup_store_records {z : Zone} {owner o : Str} :
    (store z owner rr).records.lookup o =
      if owner = ['*'] ∨ o ≠ owner then z.records.lookup o
      else some (Map.appendAt ((z.records.lookup owner).getD ∅) rr.type rr) := by
  unfold store
  by_cases hw : owner = ['*']
  · rw [if_pos hw, if_pos (Or.inl hw)]
  · rw [if_neg hw, Map.lookup_insert_eq_ite]
    simp only [hw, false_or, ne_eq, ite_not]

theorem store_wildcards {z : Zone} {owner : Str} :
    (store z owner rr).wildcards =
      if owner = ['*'] then Map.appendAt z.wildcards rr.type rr else z.wildcards := by
  unfold store
  split_ifs <;> rfl

theorem store_apex {z : Zone} {owner : Str} : (store z owner rr).apex = z.apex := by
  unfold store
  split_ifs <;> rfl

theorem store_tunnelAddr {z : Zone} {owner : Str} :
    (store z owner rr).tunnelAddr = z.tunnelAddr := by
  unfold store
  split_ifs <;> rfl

theorem Scanned.add (h : Scanned newRR apex zoneID tunnelSuffixes recs s)
    (hr : storedRR newRR zoneID tunnelSuffixes r = some rr) {z : Zone}
    (hz : z.apex = s.zone.apex ∧ z.tunnelAddr = s.zone.tunnelAddr ∧
      z.records = (store s.zone (relOwner r.name apex) rr).records ∧
      z.wildcards = (store s.zone (relOwner r.name apex) rr).wildcards)
    (ho : ∀ o, o ∈ s.tunnelOwners ↔ Tunnelled newRR apex zoneID tunnelSuffixes (recs ++ [r]) o) :
    Scanned newRR apex zoneID tunnelSuffixes (recs ++ [r]) { s with zone := z } where
  atApex := hz.1.trans h.atApex
  tunnelOwners := ho
  tunnelAddr := hz.2.1.trans h.tunnelAddr
  records o := by
    rw [hz.2.2.1, lookup_store_records, storedAt_concat, hr]
    by_cases hown : relOwner r.name apex = o
    · subst hown
      by_cases hw : relOwner r.name apex = ['*']
      · simp only [hw, true_or, if_true, h.records]
      · rw [h.records]
        simp only [hw, false_or, ne_eq, not_true_eq_false, if_false, if_true, Option.toList_some,
          List.append_eq_nil_iff, List.cons_ne_self, and_false, sets_concat]
        split_ifs with hnil
        · simp [hnil, sets, Map.group]
        · rfl
    · have hne : o ≠ relOwner r.name apex := fun h => hown h.symm
      simp only [hne, hown, ne_eq, not_false_eq_true, or_true, if_true, if_false, List.append_nil,
        h.records]
  wildcards := by
    rw [hz.2.2.2, store_wildcards, storedAt_concat, hr]
    split_ifs
    · rw [Option.toList_some, sets_concat, h.wildcards]
    · rw [List.append_nil, h.wildcards]

theorem scanned : (recs : List CFAPI.Record) →
    Scanned newRR apex zoneID tunnelSuffixes recs (scan newRR apex zoneID tunnelSuffixes recs) := by
  intro recs
  induction recs using List.reverseRecOn with
  | nil =>
    refine ⟨rfl, fun o => ?_, rfl, fun o => ?_, rfl⟩
    · simp [scan, storedAt]
    · simp [scan, Tunnelled]
  | append_singleton recs r ih =>
    unfold scan at ih ⊢
    rw [List.foldl_append, List.foldl_cons, List.foldl_nil]
    generalize List.foldl _ _ recs = s at ih ⊢
    rcases hr : toModelRR newRR r zoneID with _ | rr
    · have howners : ∀ o, o ∈ s.tunnelOwners ↔
          Tunnelled newRR apex zoneID tunnelSuffixes (recs ++ [r]) o := by
        intro o
        simp [tunnelled_concat, hr, ih.tunnelOwners]
      simpa only [scanRecord, hr] using ih.skip (by simp [storedRR, hr]) howners
    · rcases ht : isTunnelAlias tunnelSuffixes rr with _ | _
      · have howners : ∀ o, o ∈ s.tunnelOwners ↔
            Tunnelled newRR apex zoneID tunnelSuffixes (recs ++ [r]) o := by
          intro o
          simp [tunnelled_concat, hr, ht, ih.tunnelOwners]
        have hstored : storedRR newRR zoneID tunnelSuffixes r = some rr := by
          simp [storedRR, hr, ht, Option.filter]
        have hadd := fun z hz => ih.add hstored (z := z) hz howners
        rw [isTunnelAlias] at ht
        simp only [scanRecord, hr, ht, Bool.false_eq_true, if_false]
        refine hadd _ ?_
        split_ifs <;> exact ⟨store_apex, store_tunnelAddr, rfl, rfl⟩
      · have howners : ∀ o, o ∈ s.tunnelOwners.insert (relOwner r.name apex) () ↔
            Tunnelled newRR apex zoneID tunnelSuffixes (recs ++ [r]) o := by
          intro o
          rw [AList.mem_insert, ih.tunnelOwners, tunnelled_concat, or_comm, eq_comm]
          simp [hr, ht]
        have hskip := ih.skip (by simp [storedRR, hr, ht]) howners
        rw [isTunnelAlias] at ht
        simpa only [scanRecord, hr, ht, if_true] using hskip

end Scanning

section Flattening

variable {tr : TunnelResolver} {z : Zone}

/-- The address records presented for a tunnel owner, each with the type it is filed under. There
are none if the resolver fails. -/
def tunnelRecords (tr : TunnelResolver) (apex owner : Str) : List (RRType × Model.RR) :=
  match tr (ownerFQDN owner apex) with
  | .error _ => []
  | .ok (v4, v6) =>
    v4.map (fun a => (typeA, addrRR a)) ++ v6.map (fun a => (typeAAAA, addrRR a))

/-- The record sets of a tunnel owner, nothing if the resolver fails or has no address. -/
def presented (tr : TunnelResolver) (apex owner : Str) : Option RRsets :=
  if tunnelRecords tr apex owner = [] then none
  else some (Map.group (tunnelRecords tr apex owner))

theorem type_of_mem_tunnelRecords {apex owner : Str} {p : RRType × Model.RR}
    (hp : p ∈ tunnelRecords tr apex owner) : p.1 = typeA ∨ p.1 = typeAAAA := by
  unfold tunnelRecords at hp
  split at hp
  · exact absurd hp List.not_mem_nil
  · simp only [List.mem_append, List.mem_map] at hp
    rcases hp with ⟨a, -, rfl⟩ | ⟨a, -, rfl⟩
    · exact Or.inl rfl
    · exact Or.inr rfl

theorem tunnelSets_eq_group (v4 v6 : List Addr) : tunnelSets v4 v6 =
    Map.group (v4.map (fun a => (typeA, addrRR a)) ++ v6.map (fun a => (typeAAAA, addrRR a))) := by
  simp [tunnelSets, Map.group, List.foldl_append, List.foldl_map]

def SameButTunnel (z z' : Zone) : Prop :=
  z'.apex = z.apex ∧ z'.records = z.records ∧ z'.wildcards = z.wildcards

theorem flatten_eq (owner : Str) : flatten tr z owner =
    match presented tr z.apex owner with
    | none => z
    | some ta => { z with tunnelAddr := z.tunnelAddr.insert owner ta } := by
  unfold flatten presented tunnelRecords
  rcases tr (ownerFQDN owner z.apex) with e | ⟨v4, v6⟩
  · rfl
  · dsimp only
    rw [tunnelSets_eq_group]
    simp only [Map.group_entries_eq_nil_iff]
    split_ifs <;> rfl

theorem flatten_same (owner : Str) : SameButTunnel z (flatten tr z owner) := by
  rw [flatten_eq]
  split <;> exact ⟨rfl, rfl, rfl⟩

theorem lookup_flatten (owner o : Str) :
    (flatten tr z owner).tunnelAddr.lookup o =
      if o = owner then (presented tr z.apex owner).or (z.tunnelAddr.lookup o)
      else z.tunnelAddr.lookup o := by
  rw [flatten_eq]
  rcases presented tr z.apex owner with _ | ta
  · simp
  · dsimp only
    rw [Map.lookup_insert_eq_ite, Option.some_or]

theorem foldl_flatten (owners : List Str) : (z : Zone) →
    SameButTunnel z (owners.foldl (flatten tr) z) ∧
    ∀ o, (owners.foldl (flatten tr) z).tunnelAddr.lookup o =
      if o ∈ owners then (presented tr z.apex o).or (z.tunnelAddr.lookup o)
      else z.tunnelAddr.lookup o := by
  induction owners with
  | nil => exact fun z => ⟨⟨rfl, rfl, rfl⟩, fun o => by simp⟩
  | cons owner owners ih =>
    intro z
    obtain ⟨hsame, hlook⟩ := ih (flatten tr z owner)
    obtain ⟨ha, hr, hw⟩ := @flatten_same tr z owner
    refine ⟨⟨hsame.1.trans ha, hsame.2.1.trans hr, hsame.2.2.trans hw⟩, fun o => ?_⟩
    rw [List.foldl_cons, hlook, lookup_flatten, ha]
    by_cases ho : o = owner
    · subst ho
      by_cases hm : o ∈ owners
      · simp only [hm, List.mem_cons, if_true, or_true]
        rcases presented tr z.apex o with _ | ta <;> rfl
      · simp only [hm, List.mem_cons, if_true, if_false, or_false]
    · simp only [ho, List.mem_cons, if_false, false_or]

end Flattening

section Ancestors

theorem cons_join_drop_suffix {c : Char} : (parts : List Str) → (i : ℕ) → 0 < i →
    i < parts.length → c :: join (parts.drop i) c <:+ join parts c
  | [], _, _, hlt => absurd hlt (Nat.not_lt_zero _)
  | [_], i, hi, hlt => by
    simp only [List.length_singleton] at hlt
    omega
  | part :: part' :: parts, i + 1, _, hlt => by
    have hjoin : join (part :: part' :: parts) c = part ++ c :: join (part' :: parts) c := by
      simp [join, List.intercalate_cons_cons]
    rw [hjoin, List.drop_succ_cons]
    rcases Nat.eq_zero_or_pos i with rfl | hi
    · exact List.suffix_append _ _
    · have ih := cons_join_drop_suffix (c := c) (part' :: parts) i hi (by simpa using hlt)
      exact ih.trans ((List.suffix_cons _ _).trans (List.suffix_append _ _))

theorem mem_interior {owner anc : Str} : anc ∈ interior owner ↔ '.' :: anc <:+ owner := by
  unfold interior
  simp only [List.mem_map, List.mem_range'_1]
  constructor
  · rintro ⟨i, ⟨hi, hlt⟩, rfl⟩
    have hsuf := cons_join_drop_suffix (c := '.') (split owner '.') i hi (by omega)
    rwa [join_split] at hsuf
  · rintro ⟨pre, rfl⟩
    have hpre := List.length_pos_iff.mpr (split_ne_nil pre '.')
    have hanc := List.length_pos_iff.mpr (split_ne_nil anc '.')
    refine ⟨(split pre '.').length, ⟨hpre, ?_⟩, ?_⟩
    · rw [split_append, List.length_append]
      omega
    · rw [split_append, List.drop_left, join_split]

end Ancestors

section Built

variable (newRR : NewRR) (apex zoneID : Str) (tunnelSuffixes : List Str)
  (recs : List CFAPI.Record) (tr : TunnelResolver)

theorem buildZone_apex :
    (buildZone newRR apex zoneID tunnelSuffixes recs tr).apex = fqdn (toLower apex) :=
  (foldl_flatten _ _).1.1.trans (scanned recs).atApex

theorem lookup_buildZone_records (o : Str) :
    (buildZone newRR apex zoneID tunnelSuffixes recs tr).records.lookup o =
      if o = ['*'] ∨ storedAt newRR (fqdn (toLower apex)) zoneID tunnelSuffixes recs o = [] then
        none
      else some (sets (storedAt newRR (fqdn (toLower apex)) zoneID tunnelSuffixes recs o)) := by
  rw [← (scanned recs).records o]
  exact congrArg (AList.lookup o) (foldl_flatten _ _).1.2.1

theorem buildZone_wildcards :
    (buildZone newRR apex zoneID tunnelSuffixes recs tr).wildcards =
      sets (storedAt newRR (fqdn (toLower apex)) zoneID tunnelSuffixes recs ['*']) :=
  ((foldl_flatten _ _).1.2.2).trans (scanned recs).wildcards

theorem mem_buildZone_records {o : Str} :
    o ∈ (buildZone newRR apex zoneID tunnelSuffixes recs tr).records ↔
      o ≠ ['*'] ∧ storedAt newRR (fqdn (toLower apex)) zoneID tunnelSuffixes recs o ≠ [] := by
  rw [← AList.lookup_isSome, lookup_buildZone_records]
  split_ifs with h
  · simpa [or_iff_not_imp_left] using h
  · simpa [not_or] using h

theorem lookup_buildZone_tunnelAddr (o : Str) :
    (buildZone newRR apex zoneID tunnelSuffixes recs tr).tunnelAddr.lookup o =
      if Tunnelled newRR (fqdn (toLower apex)) zoneID tunnelSuffixes recs o then
        presented tr (fqdn (toLower apex)) o
      else none := by
  have hs : Scanned newRR (fqdn (toLower apex)) zoneID tunnelSuffixes recs _ := scanned recs
  refine ((foldl_flatten _ _).2 o).trans ?_
  rw [hs.tunnelAddr, hs.atApex]
  refine if_congr ?_ (by simp) (by simp)
  rw [← hs.tunnelOwners, AList.mem_keys]

theorem mem_buildZone_tunnelAddr {o : Str} :
    o ∈ (buildZone newRR apex zoneID tunnelSuffixes recs tr).tunnelAddr ↔
      Tunnelled newRR (fqdn (toLower apex)) zoneID tunnelSuffixes recs o ∧
        tunnelRecords tr (fqdn (toLower apex)) o ≠ [] := by
  rw [← AList.lookup_isSome, lookup_buildZone_tunnelAddr, presented]
  split_ifs <;> simp [*]

theorem rrsetOf_buildZone_tunnelAddr {o : Str} {t : RRType}
    (h : rrsetOf
      ((buildZone newRR apex zoneID tunnelSuffixes recs tr).tunnelAddr.lookup o) t ≠ []) :
    t = typeA ∨ t = typeAAAA := by
  rw [lookup_buildZone_tunnelAddr, presented] at h
  split_ifs at h
  · exact absurd rfl h
  · rw [rrsetOf, Option.bind_some, Map.lookup_group_getD] at h
    obtain ⟨rr, hrr⟩ := List.exists_mem_of_ne_nil _ h
    obtain ⟨p, hp, -⟩ := List.mem_map.mp hrr
    obtain ⟨hp, hpt⟩ := List.mem_filter.mp hp
    rw [← of_decide_eq_true hpt]
    exact type_of_mem_tunnelRecords hp
  · exact absurd rfl h

/-- The records of the wildcard, each with the type it is filed under. -/
def wildcardRecords : List (RRType × Model.RR) :=
  (storedAt newRR apex zoneID tunnelSuffixes recs ['*']).map (fun rr => (rr.type, rr)) ++
    if Tunnelled newRR apex zoneID tunnelSuffixes recs ['*'] then
      tunnelRecords tr apex ['*'] else []

theorem mem_buildZone_ent {anc : Str} :
    anc ∈ (buildZone newRR apex zoneID tunnelSuffixes recs tr).ent ↔
      anc ≠ [] ∧ anc ∉ (buildZone newRR apex zoneID tunnelSuffixes recs tr).records ∧
      ∃ o ∈ (buildZone newRR apex zoneID tunnelSuffixes recs tr).records, '.' :: anc <:+ o := by
  unfold buildZone deriveENT
  simp only [List.mem_toFinset, List.mem_filter, List.mem_flatMap, decide_eq_true_eq, mem_interior,
    AList.mem_keys]
  tauto

end Built

section Types

variable {newRR : NewRR} {apex zoneID : Str} {tunnelSuffixes : List Str}
  {recs : List CFAPI.Record} {tr : TunnelResolver} {r : CFAPI.Record} {rr : Model.RR} {o : Str}
  {t : RRType}

def mirroredTypes : List RRType :=
  [typeA, typeAAAA, typeCAA, typeTLSA, typeCNAME, typeNS, typePTR, typeMX, typeSRV, typeTXT]

theorem withContent_type {rr' : Model.RR} (h : withContent rr r = some rr') :
    rr'.type = rr.type ∧ rr.type ∈ mirroredTypes := by
  unfold withContent at h
  split_ifs at h with haddr hname hmx hsrv htxt
  · cases h
    simp only [Bool.or_eq_true, decide_eq_true_eq] at haddr
    refine ⟨rfl, ?_⟩
    rcases haddr with ((ht | ht) | ht) | ht <;> simp [ht, mirroredTypes]
  · cases h
    simp only [Bool.or_eq_true, decide_eq_true_eq] at hname
    refine ⟨rfl, ?_⟩
    rcases hname with (ht | ht) | ht <;> simp [ht, mirroredTypes]
  · obtain ⟨pr, -, rfl⟩ := Option.map_eq_some_iff.mp h
    exact ⟨rfl, by simp [hmx, mirroredTypes]⟩
  · obtain ⟨x, -, rfl⟩ := Option.map_eq_some_iff.mp h
    exact ⟨rfl, by simp [hsrv, mirroredTypes]⟩
  · cases h
    exact ⟨rfl, by simp [htxt, mirroredTypes]⟩

theorem toModelRR_spec (h : toModelRR newRR r zoneID = some rr) :
    rr.type ∈ mirroredTypes ∧ (rr.toMiekg newRR).isOk = true := by
  simp only [toModelRR, Option.bind_eq_bind, Option.bind_eq_some_iff] at h
  obtain ⟨typ, -, rr', hcontent, h⟩ := h
  split_ifs at h with hok
  cases h
  obtain ⟨htype, hmem⟩ := withContent_type hcontent
  exact ⟨htype ▸ hmem, hok⟩

theorem storedAt_spec (h : rr ∈ storedAt newRR apex zoneID tunnelSuffixes recs o) :
    rr.type ∈ mirroredTypes ∧ (rr.toMiekg newRR).isOk = true := by
  obtain ⟨r, -, hr⟩ := List.mem_filterMap.mp h
  exact toModelRR_spec (Option.filter_eq_some_iff.mp hr).1

theorem mem_rrsetOf_sets {rrs : List Model.RR} :
    rr ∈ rrsetOf (some (sets rrs)) t ↔ rr ∈ rrs ∧ rr.type = t := by
  simp only [rrsetOf, sets, Option.bind_some, Map.lookup_group_getD, List.mem_map, List.mem_filter,
    decide_eq_true_eq]
  constructor
  · rintro ⟨p, ⟨⟨r, hr, rfl⟩, ht⟩, rfl⟩
    exact ⟨hr, ht⟩
  · rintro ⟨hr, ht⟩
    exact ⟨(rr.type, rr), ⟨⟨rr, hr, rfl⟩, ht⟩, rfl⟩

/-- The records of a built zone are of the type they are filed under, which is a mirrored one, and
render. -/
theorem mem_buildZone_rrset (h : rr ∈ rrsetOf
    ((buildZone newRR apex zoneID tunnelSuffixes recs tr).records.lookup o) t) :
    rr.type = t ∧ t ∈ mirroredTypes ∧ (rr.toMiekg newRR).isOk = true := by
  rw [lookup_buildZone_records] at h
  split_ifs at h
  · cases h
  · obtain ⟨hmem, rfl⟩ := mem_rrsetOf_sets.mp h
    exact ⟨rfl, storedAt_spec hmem⟩

theorem mem_buildZone_wildcards (h : rr ∈ rrsetOf
    (some (buildZone newRR apex zoneID tunnelSuffixes recs tr).wildcards) t) :
    rr.type = t ∧ t ∈ mirroredTypes ∧ (rr.toMiekg newRR).isOk = true := by
  rw [buildZone_wildcards] at h
  obtain ⟨hmem, rfl⟩ := mem_rrsetOf_sets.mp h
  exact ⟨rfl, storedAt_spec hmem⟩

end Types

end SplitDNS.Mirror
