import SplitDNS.Go.MapFlat
import SplitDNS.Mirror.Nodes

/-! # What a built zone stores

The records of a built zone with the owners and types they are stored under, as
a multiset, against the list they were built from. The priority of a mail
exchanger is checked and that of a service record is not: a service record
whose priority is no number of sixteen bits is stored with the priority zero.
-/

namespace SplitDNS.Mirror

open Go Go.Strings Dns Model

/-- A stored record with its owner and the type it is stored under. -/
abbrev Stored := Str × RRType × Model.RR

def storedIn (owner : Str) (sets : RRsets) : List Stored :=
  Map.flat (fun type rrs => rrs.map fun rr => (owner, type, rr)) sets

def storedList (z : Zone) : List Stored :=
  Map.flat storedIn z.records ++ storedIn ['*'] z.wildcards

/-- The record has the priority of the one it was made from, where it has one. -/
def keepsPriority (r : CFAPI.Record) (rr : Model.RR) : Bool :=
  (rr.type = typeMX || rr.type = typeSRV) → r.priority = some (rr.priority.toNat : ℚ)

/-- A service record with the priority zero, if its content reads. -/
def plainSRV (r : CFAPI.Record) (zoneID : Str) : Option Model.RR :=
  (parseSRVContent r.content).map fun (w, p, t) =>
    { name := fqdn (toLower r.name), type := typeSRV, cls := classINET, ttl := ttlOr r.ttl,
      weight := w, port := p, target := t, proxied := r.proxied, zoneID, recordID := r.id }

section Storing

variable (newRR : NewRR) (apex zoneID : Str) (tunnelSuffixes : List Str)

/-- The record stored for one of the provider's, with its owner and type. -/
def stored (r : CFAPI.Record) : Option Stored :=
  (storedRR newRR zoneID tunnelSuffixes r).map fun rr => (relOwner r.name apex, rr.type, rr)

/-- The same for a record that keeps its priority, nothing for any other. -/
def faithful (r : CFAPI.Record) : Option Stored :=
  ((storedRR newRR zoneID tunnelSuffixes r).filter (keepsPriority r)).map fun rr =>
    (relOwner r.name apex, rr.type, rr)

variable {newRR apex zoneID tunnelSuffixes} {rr : Model.RR} {sets : RRsets} {owner : Str} {z : Zone}
  {r : CFAPI.Record} {recs : List CFAPI.Record}

theorem storedIn_appendAt :
    (storedIn owner (Map.appendAt sets rr.type rr)).Perm
      (storedIn owner sets ++ [(owner, rr.type, rr)]) := by
  refine Map.flat_insert_concat ?_
  rcases sets.lookup rr.type with _ | rrs
  · exact List.Perm.refl _
  · simp

theorem storedList_store :
    (storedList (store z owner rr)).Perm (storedList z ++ [(owner, rr.type, rr)]) := by
  unfold storedList store
  split_ifs with hwild
  · subst hwild
    rw [List.append_assoc]
    exact storedIn_appendAt.append_left _
  · have hrecords : (Map.flat storedIn (z.records.insert owner
        (Map.appendAt ((z.records.lookup owner).getD ∅) rr.type rr))).Perm
          (Map.flat storedIn z.records ++ [(owner, rr.type, rr)]) := by
      refine Map.flat_insert_concat ?_
      rcases z.records.lookup owner with _ | sets
      · exact storedIn_appendAt
      · exact storedIn_appendAt
    refine (hrecords.append_right _).trans ?_
    rw [List.append_assoc, List.append_assoc]
    exact List.perm_append_comm.append_left _

theorem storedList_scanRecord (s : Scan) :
    (storedList (scanRecord newRR apex zoneID tunnelSuffixes s r).zone).Perm
      (storedList s.zone ++ (stored newRR apex zoneID tunnelSuffixes r).toList) := by
  unfold scanRecord stored storedRR
  rcases hr : toModelRR newRR r zoneID with _ | rr
  · simp
  · dsimp only
    cases htunnel : isTunnelAlias tunnelSuffixes rr with
    | true =>
      rw [isTunnelAlias] at htunnel
      simp [htunnel, Option.filter, isTunnelAlias]
    | false =>
      have hstore := @storedList_store rr (relOwner r.name apex) s.zone
      rw [isTunnelAlias] at htunnel
      rw [htunnel, if_neg Bool.false_ne_true]
      simp only [Option.filter, isTunnelAlias, htunnel, Bool.not_false, if_true, Option.map_some,
        Option.toList_some]
      split_ifs
      · exact hstore
      · exact hstore

theorem storedList_scan (recs : List CFAPI.Record) :
    (storedList (scan newRR apex zoneID tunnelSuffixes recs).zone).Perm
      (recs.filterMap (stored newRR apex zoneID tunnelSuffixes)) := by
  induction recs using List.reverseRecOn with
  | nil => exact List.Perm.refl _
  | append_singleton recs r ih =>
    rw [scan, List.foldl_append, List.foldl_cons, List.foldl_nil, ← scan, List.filterMap_append]
    refine (storedList_scanRecord _).trans ?_
    have hone : [r].filterMap (stored newRR apex zoneID tunnelSuffixes) =
        (stored newRR apex zoneID tunnelSuffixes r).toList := by
      cases h : stored newRR apex zoneID tunnelSuffixes r <;> simp [h]
    rw [hone]
    exact ih.append_right _

theorem storedList_buildZone (apex : Str) (recs : List CFAPI.Record) (tr : TunnelResolver) :
    (storedList (buildZone newRR apex zoneID tunnelSuffixes recs tr)).Perm
      (recs.filterMap (stored newRR (fqdn (toLower apex)) zoneID tunnelSuffixes)) := by
  refine List.Perm.trans (List.Perm.of_eq ?_) (storedList_scan recs)
  have hsame := (@foldl_flatten tr (scan newRR (fqdn (toLower apex)) zoneID tunnelSuffixes
    recs).tunnelOwners.keys (scan newRR (fqdn (toLower apex)) zoneID tunnelSuffixes recs).zone).1
  exact congrArg₂ (fun records wildcards => Map.flat storedIn records ++ storedIn ['*'] wildcards)
    hsame.2.1 hsame.2.2

end Storing

section Priorities

variable {newRR : NewRR} {apex zoneID : Str} {tunnelSuffixes : List Str} {rr : Model.RR}
  {r : CFAPI.Record} {recs : List CFAPI.Record}

theorem coercePriority_eq_some {p : Option ℚ} {n : UInt16} :
    coercePriority p = some n ↔ p = some (n.toNat : ℚ) := by
  have hlt : n.toNat < 65536 := n.toNat_lt
  cases p with
  | none => simp [coercePriority]
  | some f =>
    rw [coercePriority, Option.some_inj]
    constructor
    · intro h
      split_ifs at h with hrange hint
      rw [Bool.or_eq_true, decide_eq_true_eq, decide_eq_true_eq, not_or, not_lt, not_lt] at hrange
      have hfloor : 0 ≤ f.floor := Rat.le_floor_iff.mpr (by simpa using hrange.1)
      have hle : f.floor ≤ 65535 := by
        have hcast : (f.floor : ℚ) ≤ 65535 := (not_not.mp hint) ▸ hrange.2
        exact_mod_cast hcast
      have hsmall : f.floor.toNat < 65536 := by omega
      have hn : n.toNat = f.floor.toNat := by
        rw [← Option.some.inj h]
        exact UInt16.toNat_ofNat_of_lt' hsmall
      rw [not_not.mp hint, hn]
      exact_mod_cast (Int.toNat_of_nonneg hfloor).symm
    · rintro rfl
      have hfloor : (n.toNat : ℚ).floor = (n.toNat : ℤ) := Rat.floor_intCast n.toNat
      have hrange : ¬ (decide ((n.toNat : ℚ) < 0) || decide (65535 < (n.toNat : ℚ))) = true := by
        rw [Bool.or_eq_true, decide_eq_true_eq, decide_eq_true_eq, not_or, not_lt, not_lt]
        exact ⟨Nat.cast_nonneg _, by exact_mod_cast Nat.le_of_lt_succ hlt⟩
      rw [if_neg hrange, hfloor, if_neg (by simp), Int.toNat_natCast, UInt16.ofNat_toNat]

theorem toModelRR_priority (h : toModelRR newRR r zoneID = some rr) :
    (rr.type = typeMX → coercePriority r.priority = some rr.priority) ∧
      (rr.type = typeSRV → rr.priority = (coercePriority r.priority).getD 0) := by
  simp only [toModelRR, Option.bind_eq_bind, Option.bind_eq_some_iff] at h
  obtain ⟨typ, -, rr', hcontent, h⟩ := h
  split_ifs at h
  cases h
  have htype := (withContent_type hcontent).1
  constructor
  · intro hmx
    rw [hmx] at htype
    dsimp only at htype
    subst htype
    obtain ⟨pr, hpr, rfl⟩ := Option.map_eq_some_iff.mp hcontent
    exact hpr
  · intro hsrv
    rw [hsrv] at htype
    dsimp only at htype
    subst htype
    obtain ⟨x, -, rfl⟩ := Option.map_eq_some_iff.mp hcontent
    rfl

theorem keepsPriority_iff (h : toModelRR newRR r zoneID = some rr) :
    keepsPriority r rr = true ↔
      (rr.type = typeSRV → (coercePriority r.priority).isSome = true) := by
  obtain ⟨hmx, hsrv⟩ := toModelRR_priority h
  simp only [keepsPriority, decide_eq_true_eq, Bool.or_eq_true, ← coercePriority_eq_some]
  constructor
  · intro hkeep htype
    rw [hkeep (Or.inr htype)]
    rfl
  · rintro hsome (htype | htype)
    · exact hmx htype
    · obtain ⟨n, hn⟩ := Option.isSome_iff_exists.mp (hsome htype)
      rw [hsrv htype, hn]
      rfl

theorem toModelRR_of_srv (htype : stringToType (toUpper r.type) = some typeSRV)
    (hpriority : coercePriority r.priority = none) :
    toModelRR newRR r zoneID = (plainSRV r zoneID).filter fun rr => (rr.toMiekg newRR).isOk := by
  rw [toModelRR, htype, plainSRV]
  simp only [withContent, hpriority]
  cases parseSRVContent r.content with
  | none => rfl
  | some x => rfl

theorem mirrored_srv_iff (htype : stringToType (toUpper r.type) = some typeSRV) :
    ((toModelRR newRR r zoneID).isSome = true → (coercePriority r.priority).isSome = true) ↔
      ∀ rr ∈ plainSRV r zoneID, (rr.toMiekg newRR).isOk = true →
        (coercePriority r.priority).isSome = true := by
  cases hpriority : coercePriority r.priority with
  | some n => simp
  | none =>
    rw [toModelRR_of_srv htype hpriority]
    cases plainSRV r zoneID with
    | none => simp
    | some rr => cases hok : (rr.toMiekg newRR).isOk <;> simp [Option.filter, hok]

theorem not_isTunnelAlias_of_srv (h : rr.type = typeSRV) :
    isTunnelAlias tunnelSuffixes rr = false := by
  rw [isTunnelAlias, h]
  rfl

theorem type_of_toModelRR (h : toModelRR newRR r zoneID = some rr) :
    stringToType (toUpper r.type) = some rr.type := by
  simp only [toModelRR, Option.bind_eq_bind, Option.bind_eq_some_iff] at h
  obtain ⟨typ, htyp, rr', hcontent, h⟩ := h
  split_ifs at h
  cases h
  rw [htyp, (withContent_type hcontent).1]

/-- For one record: what is stored keeps the priority, unless it is a service record with a
priority that is not accepted. -/
theorem faithful_eq_stored_iff :
    faithful newRR apex zoneID tunnelSuffixes r = stored newRR apex zoneID tunnelSuffixes r ↔
      (stringToType (toUpper r.type) = some typeSRV → (toModelRR newRR r zoneID).isSome = true →
        (coercePriority r.priority).isSome = true) := by
  unfold faithful stored storedRR
  rcases hr : toModelRR newRR r zoneID with _ | rr
  · simp
  · have htype := type_of_toModelRR hr
    have hkeep := keepsPriority_iff hr
    by_cases hsrv : rr.type = typeSRV
    · have htunnel := @not_isTunnelAlias_of_srv tunnelSuffixes rr hsrv
      simp only [hsrv, forall_const] at hkeep htype
      simp only [htype, ← hkeep, htunnel, Option.filter, Bool.not_false, if_true, Option.map_some,
        Option.isSome_some, forall_const]
      cases keepsPriority r rr <;> simp
    · have hyes : keepsPriority r rr = true := hkeep.mpr fun h => absurd h hsrv
      have hne : stringToType (toUpper r.type) ≠ some typeSRV := fun h =>
        hsrv (Option.some.inj (htype.symm.trans h))
      refine iff_of_true ?_ fun h => absurd h hne
      cases htunnel : isTunnelAlias tunnelSuffixes rr <;>
        simp [Option.filter, htunnel, hyes]

section Partial

variable {α β : Type} {f g : α → Option β} {l : List α}

theorem filterMap_sublist (h : ∀ x, g x = f x ∨ g x = none) (l : List α) :
    (l.filterMap g).Sublist (l.filterMap f) := by
  induction l with
  | nil => exact List.Sublist.refl _
  | cons x l ih =>
    cases hf : f x with
    | none =>
      have hg : g x = none := (h x).elim (·.trans hf) id
      rw [List.filterMap_cons_none hf, List.filterMap_cons_none hg]
      exact ih
    | some y =>
      rw [List.filterMap_cons_some hf]
      rcases h x with hg | hg
      · rw [List.filterMap_cons_some (hg.trans hf)]
        exact ih.cons_cons y
      · rw [List.filterMap_cons_none hg]
        exact ih.cons y

/-- Of two partial functions, one defined less often, equally many values come from a list only if
they agree on it. -/
theorem eq_of_length_filterMap (h : ∀ x, g x = f x ∨ g x = none)
    (hlen : (l.filterMap f).length = (l.filterMap g).length) : ∀ x ∈ l, g x = f x := by
  induction l with
  | nil => simp
  | cons x l ih =>
    have hle := (filterMap_sublist h l).length_le
    rw [List.forall_mem_cons]
    cases hf : f x with
    | none =>
      have hg : g x = none := (h x).elim (·.trans hf) id
      rw [List.filterMap_cons_none hf, List.filterMap_cons_none hg] at hlen
      exact ⟨hg, ih hlen⟩
    | some y =>
      rw [List.filterMap_cons_some hf, List.length_cons] at hlen
      rcases h x with hg | hg
      · rw [List.filterMap_cons_some (hg.trans hf), List.length_cons] at hlen
        exact ⟨hg.trans hf, ih (Nat.succ.inj hlen)⟩
      · rw [List.filterMap_cons_none hg] at hlen
        omega

end Partial

/-- A built zone stores exactly the mirrored records, each once under its owner and type and with
its priority, unless a service record with a priority that is not accepted is among them. -/
theorem storedList_faithful_iff (newRR : NewRR) (apex zoneID : Str) (tunnelSuffixes : List Str)
    (recs : List CFAPI.Record) (tr : TunnelResolver) :
    (storedList (buildZone newRR apex zoneID tunnelSuffixes recs tr)).Perm
        (recs.filterMap (faithful newRR (fqdn (toLower apex)) zoneID tunnelSuffixes)) ↔
      ∀ r ∈ recs, stringToType (toUpper r.type) = some typeSRV →
        ∀ rr ∈ plainSRV r zoneID, (rr.toMiekg newRR).isOk = true →
          (coercePriority r.priority).isSome = true := by
  have hperm := @storedList_buildZone newRR zoneID tunnelSuffixes apex recs tr
  have hone : ∀ r, (stringToType (toUpper r.type) = some typeSRV →
      ∀ rr ∈ plainSRV r zoneID, (rr.toMiekg newRR).isOk = true →
        (coercePriority r.priority).isSome = true) ↔
      faithful newRR (fqdn (toLower apex)) zoneID tunnelSuffixes r =
        stored newRR (fqdn (toLower apex)) zoneID tunnelSuffixes r := by
    intro r
    rw [faithful_eq_stored_iff]
    exact forall_congr' fun htype => (mirrored_srv_iff htype).symm
  simp only [hone]
  constructor
  · intro h
    refine eq_of_length_filterMap (fun r => ?_) (hperm.symm.trans h).length_eq
    unfold faithful stored
    rcases storedRR newRR zoneID tunnelSuffixes r with _ | rr
    · exact Or.inl rfl
    · cases hkeep : keepsPriority r rr <;> simp [Option.filter, hkeep]
  · intro h
    rw [List.filterMap_congr h]
    exact hperm

def brokenSRV : CFAPI.Record where
  type := "SRV".toList
  name := "_sip._tcp.example.com".toList
  content := "5 5060 sip.example.com".toList
  priority := some (3 / 2)

/-- The reading of the line of that record with the priority zero. -/
def srvReader : NewRR := fun _ =>
  .ok (some ⟨⟨"_sip._tcp.example.com.".toList, typeSRV, classINET, 300⟩,
    .srv 0 5 5060 "sip.example.com.".toList⟩)

theorem brokenSRV_stored :
    ¬ (storedList (buildZone srvReader "example.com".toList [] [] [brokenSRV]
        fun _ => .ok ([], []))).Perm
      ([brokenSRV].filterMap (faithful srvReader (fqdn (toLower "example.com".toList)) [] [])) := by
  intro h
  have hlen := (storedList_buildZone _ _ _).symm.trans h |>.length_eq
  exact absurd hlen (by decide +kernel)

end Priorities

end SplitDNS.Mirror
