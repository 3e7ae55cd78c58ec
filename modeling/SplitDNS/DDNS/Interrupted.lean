import SplitDNS.DDNS.Convergence

/-! # Interrupted update plans

What a name holds when an editor call fails and the rest of the plan is not
executed. The calls before the failure are a plan of their own; as the deletes
come last, the name always keeps addresses of its own or has all desired ones
already. A plan that was executed completely leaves nothing to plan.
-/

namespace SplitDNS.DDNS

open Go Go.Netip Go.Strings Model

def Plan.take (p : Plan) (k : ℕ) : Plan where
  edits := p.edits.take k
  creates := p.creates.take (k - p.edits.length)
  deletes := p.deletes.take (k - p.edits.length - p.creates.length)

/-- The record has the address, and the type that goes with it. -/
def Carries (r : Model.RR) (a : Addr) : Prop :=
  (parseAddr (trimSpace r.content)).map Addr.unmap = some a ∧ r.type = typeOf a

def HoldsAddr (store : List Model.RR) (name : Str) (a : Addr) : Prop :=
  ∃ r ∈ store, r.name = name ∧ Carries r a

/-- The address records of one name in one zone, each of the type of its address. -/
structure RecordsOf (zoneID name : Str) (records : List Model.RR) : Prop where
  zone : ∀ r ∈ records, r.zoneID = zoneID
  name : ∀ r ∈ records, r.name = name
  ids : (records.map Model.RR.recordID).Nodup
  typed : ∀ r ∈ records, ∃ a, Carries r a

/-- The address is one that the writer passes on: valid, unmapped and without a zone. -/
def Plain (a : Addr) : Prop := a.isValid ∧ a.unmap = a ∧ a.zone = []

def EditorCall.target : EditorCall → Option Str
  | update _ recordID _ _ _ => some recordID
  | create _ _ _ _ => none
  | delete _ recordID => some recordID

/-- What an execution may leave a name with at any point: some address, only old and desired
ones, one of each family that had some and is to have some, and no record of another type. -/
structure Safe (name : Str) (records : List Model.RR) (desired : List Addr)
    (store : List Model.RR) : Prop where
  held : ∃ a, HoldsAddr store name a
  old_or_desired : ∀ r ∈ store, r.name = name ∧
    ∃ a, Carries r a ∧ (HoldsAddr records name a ∨ a ∈ desired)
  family : ∀ a b, HoldsAddr records name a → b ∈ desired → b.is6 = a.is6 →
    ∃ c, HoldsAddr store name c ∧ c.is6 = a.is6
  type : ∀ r' ∈ store, ∀ r ∈ records, recordKey r' = recordKey r → r'.type = r.type

section Calls

variable {ids : IdSource} {fail : ℕ → Option Str} {i : ℕ} {calls : List EditorCall}
  {store : List Model.RR}

theorem madeCalls_isPrefix : madeCalls fail i calls <+: calls := by
  induction calls generalizing i with
  | nil => exact List.prefix_rfl
  | cons call calls ih =>
    rw [madeCalls]
    split
    · exact ⟨calls, rfl⟩
    · exact (List.prefix_cons_inj call).mpr ih

theorem exists_execCalls_fst :
    ∃ k, (execCalls ids fail i calls store).1 =
      (calls.take k).foldl (EditorCall.exec ids) store := by
  induction calls generalizing i store with
  | nil => exact ⟨0, rfl⟩
  | cons call calls ih =>
    rw [execCalls]
    split
    · exact ⟨0, rfl⟩
    · obtain ⟨k, hk⟩ := @ih (i + 1) (call.exec ids store)
      exact ⟨k + 1, hk⟩

end Calls

theorem calls_take (p : Plan) (k : ℕ) : (p.take k).calls = p.calls.take k := by
  simp only [Plan.calls, Plan.take, List.take_append, List.map_take, List.length_append,
    List.length_map, Nat.sub_sub]

theorem exists_apply_take (ids : IdSource) (fail : ℕ → Option Str) (p : Plan)
    (store : List Model.RR) :
    ∃ k, (apply ids fail p store).1 = (apply ids (fun _ => none) (p.take k) store).1 := by
  obtain ⟨k, hk⟩ := @exists_execCalls_fst ids fail 0 p.calls store
  refine ⟨k, ?_⟩
  rw [apply, hk, apply, execCalls_succeed, calls_take]

theorem filterMap_target_calls (p : Plan) :
    p.calls.filterMap EditorCall.target = p.touched.map Model.RR.recordID := by
  simp only [Plan.calls, Plan.touched, List.filterMap_append, List.filterMap_map, List.map_append,
    List.map_map]
  have hu : List.filterMap (EditorCall.target ∘ fun e : EditOp => .update e.record.zoneID
      e.record.recordID e.record.name (typeOf e.addr) e.addr.string) p.edits =
      p.edits.map (Model.RR.recordID ∘ EditOp.record) := List.filterMap_eq_map ▸ rfl
  have hc : List.filterMap (EditorCall.target ∘ fun c : CreateOp => .create c.zoneID c.name
      (typeOf c.addr) c.addr.string) p.creates = [] :=
    List.filterMap_eq_nil_iff.mpr fun _ _ => rfl
  have hd : List.filterMap (EditorCall.target ∘ fun d : Model.RR => .delete d.zoneID d.recordID)
      p.deletes = p.deletes.map Model.RR.recordID := List.filterMap_eq_map ▸ rfl
  rw [hu, hc, hd, List.append_nil]

theorem take_length_calls (p : Plan) : p.take p.calls.length = p := by
  have hlen : p.calls.length = p.edits.length + p.creates.length + p.deletes.length := by
    simp [Plan.calls, Nat.add_assoc]
  rw [Plan.take, hlen, List.take_of_length_le (by omega), List.take_of_length_le (by omega),
    List.take_of_length_le (by omega)]

section Take

variable {p : Plan} {k : ℕ}

theorem touched_take_sublist : (p.take k).touched.Sublist p.touched :=
  ((List.take_sublist _ _).map _).append (List.take_sublist _ _)

theorem written_take_subset {w : Str × Addr} (h : w ∈ (p.take k).written) : w ∈ p.written := by
  rcases List.mem_append.mp h with h | h
  · exact List.mem_append_left _ (((List.take_sublist _ _).map _).subset h)
  · exact List.mem_append_right _ (((List.take_sublist _ _).map _).subset h)

theorem deletes_take_or_written_take :
    (p.take k).deletes = [] ∨ (p.take k).written = p.written := by
  rcases Nat.le_total k (p.edits.length + p.creates.length) with h | h
  · left
    rw [Plan.take, Nat.sub_sub, Nat.sub_eq_zero_of_le h, List.take_zero]
  · right
    simp only [Plan.written, Plan.take]
    rw [List.take_of_length_le (by omega), List.take_of_length_le (by omega)]

end Take

section Addresses

variable {a b : Addr} {r : Model.RR}

theorem normAddr_of_carries (h : Carries r a) : normAddr r.content = a.string := by
  obtain ⟨b, hb, rfl⟩ := Option.map_eq_some_iff.mp h.1
  rw [normAddr, hb]

theorem Plain.carries (h : Plain a) (hc : r.content = a.string) (ht : r.type = typeOf a) :
    Carries r a := by
  have htrim : trimSpace a.string = a.string :=
    trimSpace_of_not_isSpace fun c hc => (Addr.mem_string h.1 h.2.2 hc).1
  refine ⟨?_, ht⟩
  rw [hc, htrim, parseAddr_string h.1, Option.map_some, h.2.1]

theorem Carries.isValid (h : Carries r a) : a.isValid := by
  obtain ⟨b, hb, rfl⟩ := Option.map_eq_some_iff.mp h.1
  exact Addr.isValid_unmap (isValid_of_parseAddr hb)

theorem is6_eq_decide_typeOf (h : a.isValid) : decide (typeOf a = Dns.typeAAAA) = a.is6 := by
  cases a with
  | invalid => cases h
  | v4 b => rfl
  | v6 b z => rfl

theorem typeOf_eq_of_is6_eq (ha : a.isValid) (hb : b.isValid) (h : a.is6 = b.is6) :
    typeOf a = typeOf b := by
  cases a with
  | invalid => cases ha
  | v4 _ =>
    cases b with
    | invalid => cases hb
    | v4 _ => rfl
    | v6 _ _ => cases h
  | v6 _ _ =>
    cases b with
    | invalid => cases hb
    | v4 _ => cases h
    | v6 _ _ => rfl

end Addresses

section Planning

variable {sortAdded : SliceSort Addr.string} {sortDeleted : SliceSort Model.RR.content}
  {records : List Model.RR} {desired : List Addr} {p : Plan}

theorem mem_familyPlan_edits {zoneID name : Str} {added : List Addr} {deleted : List Model.RR}
    {e : EditOp} (he : e ∈ (familyPlan zoneID name added deleted).edits) :
    e.record ∈ deleted ∧ e.addr ∈ added := by
  obtain ⟨i, hi, rfl⟩ := List.mem_iff_getElem.mp he
  simp only [familyPlan, List.getElem_zipWith]
  exact ⟨List.getElem_mem _, List.getElem_mem _⟩

theorem buildPlan_edit_family (hp : buildPlan sortAdded sortDeleted records desired = some p)
    {e : EditOp} (he : e ∈ p.edits) :
    decide (e.record.type = Dns.typeAAAA) = e.addr.is6 := by
  rcases records with _ | ⟨first, rest⟩
  · simp [buildPlan] at hp
  obtain rfl := Option.some.inj hp
  rcases List.mem_append.mp he with he | he
  all_goals
    obtain ⟨hr, ha⟩ := mem_familyPlan_edits he
    rw [(sortDeleted.perm _).mem_iff, List.mem_filter, decide_eq_true_eq] at hr
    rw [(sortAdded.perm _).mem_iff, List.mem_filter, decide_eq_true_eq] at ha
    rw [hr.2, ha.2]

/-- A plan without edits, creates and deletes is built when every record has a desired address
and every desired address has a record. -/
theorem buildPlan_empty (hne : records ≠ [])
    (hd : ∀ r ∈ records, normAddr r.content ∈ desired.map Addr.string)
    (ha : ∀ a ∈ desired, a.string ∈ records.map fun r => normAddr r.content) :
    ∃ q, buildPlan sortAdded sortDeleted records desired = some q ∧ q.empty = true := by
  obtain ⟨first, rest, rfl⟩ := List.exists_cons_of_ne_nil hne
  refine ⟨_, rfl, ?_⟩
  generalize hq : Plan.append _ _ = q
  have hp : buildPlan sortAdded sortDeleted (first :: rest) desired = some q := congrArg some hq
  have ht : q.touched = [] := by
    have hnil :
        ((first :: rest).filter fun r => normAddr r.content ∉ desired.map Addr.string) = [] :=
      List.filter_eq_nil_iff.mpr fun r hr => by simpa using hd r hr
    have := buildPlan_touched hp
    rw [hnil] at this
    exact this.eq_nil
  have hw : q.written = [] := by
    have hnil : addedAddrs ((first :: rest).map fun r => normAddr r.content) [] desired = [] :=
      List.eq_nil_iff_forall_not_mem.mpr fun a hm =>
        (mem_addedAddrs hm).2.1 (ha a (mem_addedAddrs hm).1)
    have := buildPlan_written hp
    rw [hnil] at this
    exact List.map_eq_nil_iff.mp this.eq_nil
  rw [Plan.touched, List.append_eq_nil_iff, List.map_eq_nil_iff] at ht
  rw [Plan.written, List.append_eq_nil_iff, List.map_eq_nil_iff, List.map_eq_nil_iff] at hw
  simp [Plan.empty, ht.1, ht.2, hw.2]

end Planning

section Interruption

variable {ids : IdSource} {sortAdded : SliceSort Addr.string}
  {sortDeleted : SliceSort Model.RR.content} {records : List Model.RR} {desired : List Addr}
  {p : Plan} {zoneID name : Str} {k : ℕ} {e : EditOp} {a : Addr}
  (hrec : RecordsOf zoneID name records) (hplain : ∀ a ∈ desired, Plain a)
  (hp : buildPlan sortAdded sortDeleted records desired = some p)

theorem RecordsOf.nodup_keys (h : RecordsOf zoneID name records) :
    (records.map recordKey).Nodup := by
  refine List.Nodup.of_map Prod.snd ?_
  rw [List.map_map]
  exact h.ids

include hp in
theorem touched_take_subset {r : Model.RR} (h : r ∈ (p.take k).touched) :
    r ∈ records ∧ normAddr r.content ∉ desired.map Addr.string :=
  (mem_touched_iff hp).mp (touched_take_sublist.subset h)

include hrec hp in
theorem nodup_touched_take : ((p.take k).touched.map recordKey).Nodup :=
  (nodup_touched hp hrec.nodup_keys).sublist (touched_take_sublist.map _)

include hplain hp in
theorem plain_of_mem_edits (he : e ∈ p.edits) : Plain e.addr :=
  hplain _ (written_desired hp (List.mem_append_left _ (List.mem_map_of_mem he))).1

include hrec hplain hp in
theorem typeOf_of_mem_edits (he : e ∈ p.edits) : typeOf e.addr = e.record.type := by
  obtain ⟨hr, -⟩ := (mem_touched_iff hp).mp (record_mem_touched he)
  obtain ⟨a, ha⟩ := hrec.typed _ hr
  have hfam := buildPlan_edit_family hp he
  rw [ha.2, is6_eq_decide_typeOf ha.isValid] at hfam
  rw [ha.2]
  exact typeOf_eq_of_is6_eq (plain_of_mem_edits hplain hp he).1 ha.isValid hfam.symm

include hrec hplain hp in
theorem old_or_desired_of_take {r : Model.RR}
    (hr : r ∈ (apply ids (fun _ => none) (p.take k) records).1) :
    r.name = name ∧ ∃ a, Carries r a ∧ (HoldsAddr records name a ∨ a ∈ desired) := by
  rcases mem_apply_cases (nodup_touched_take hrec hp) hr with ⟨hr, -⟩ | ⟨w, hw, hwn, ht, hcont⟩
  · obtain ⟨a, ha⟩ := hrec.typed r hr
    exact ⟨hrec.name r hr, a, ha, Or.inl ⟨r, hr, hrec.name r hr, ha⟩⟩
  · have hw := written_take_subset hw
    have hd := (written_desired hp hw).1
    obtain ⟨t, htr, htn⟩ := List.mem_map.mp (buildPlan_written_name hp hw)
    exact ⟨hwn.trans (htn.symm.trans (hrec.name t htr)), w.2, (hplain _ hd).carries hcont ht,
      Or.inr hd⟩

include hrec hplain hp in
theorem type_of_take {r r' : Model.RR}
    (hr' : r' ∈ (apply ids (fun _ => none) (p.take k) records).1) (hr : r ∈ records)
    (hk : recordKey r' = recordKey r) : r'.type = r.type := by
  obtain ⟨new, hstore, -, hfresh⟩ := apply_store ids (p.take k) records
  rw [hstore, List.mem_filter, List.mem_append] at hr'
  rcases hr'.1 with hm | hm
  · obtain ⟨r₀, hr₀, rfl⟩ := List.mem_map.mp hm
    rw [recordKey_foldl_edit] at hk
    obtain rfl := List.inj_on_of_nodup_map hrec.nodup_keys hr₀ hr hk
    by_cases he : ∃ e ∈ (p.take k).edits, recordKey r₀ = recordKey e.record
    · obtain ⟨e, he, hke⟩ := he
      have hmem := List.mem_of_mem_take he
      have hrec₀ := ((mem_touched_iff hp).mp (record_mem_touched hmem)).1
      obtain rfl := List.inj_on_of_nodup_map hrec.nodup_keys hr₀ hrec₀ hke
      rw [foldl_edit_of_mem he (nodup_edits (nodup_touched_take hrec hp)) rfl]
      exact typeOf_of_mem_edits hrec hplain hp hmem
    · push Not at he
      rw [foldl_edit_of_not_mem he]
  · exact absurd hk (hfresh r' hm r hr)

include hrec hplain hp in
theorem family_kept_of_take (hdel : (p.take k).deletes = []) (h : HoldsAddr records name a) :
    ∃ b, HoldsAddr (apply ids (fun _ => none) (p.take k) records).1 name b ∧ b.is6 = a.is6 := by
  obtain ⟨r, hr, hname, hc⟩ := h
  have hts : ∀ r ∈ (p.take k).touched, r ∈ records := fun r h => (touched_take_subset hp h).1
  have hn := @nodup_touched_take _ _ _ _ _ _ _ k hrec hp
  by_cases hrt : r ∈ (p.take k).touched
  · rw [Plan.touched, hdel, List.append_nil] at hrt
    obtain ⟨e, he, rfl⟩ := List.mem_map.mp hrt
    have hmem := List.mem_of_mem_take he
    have hw : (e.record.name, e.addr) ∈ (p.take k).written :=
      List.mem_append_left _ (List.mem_map_of_mem he)
    obtain ⟨r', hr', hname', ht', hc'⟩ := @exists_mem_apply_of_written ids records _ hts hn _ hw
    have hpl := plain_of_mem_edits hplain hp hmem
    refine ⟨e.addr, ⟨r', hr', hname'.trans hname, hpl.carries hc' ht'⟩, ?_⟩
    rw [← is6_eq_decide_typeOf hpl.1, typeOf_of_mem_edits hrec hplain hp hmem, hc.2,
      is6_eq_decide_typeOf hc.isValid]
  · exact ⟨a, ⟨r, mem_apply_of_untouched hrec.nodup_keys hts hr hrt, hname, hc⟩, rfl⟩

include hrec hplain hp in
theorem desired_held_of_take (hwr : (p.take k).written = p.written) (ha : a ∈ desired) :
    HoldsAddr (apply ids (fun _ => none) (p.take k) records).1 name a := by
  have hts : ∀ r ∈ (p.take k).touched, r ∈ records := fun r h => (touched_take_subset hp h).1
  have hn := @nodup_touched_take _ _ _ _ _ _ _ k hrec hp
  by_cases hcur : a.string ∈ records.map fun r => normAddr r.content
  · obtain ⟨r, hr, hs⟩ := List.mem_map.mp hcur
    have hrt : r ∉ (p.take k).touched := fun h =>
      (touched_take_subset hp h).2 (hs ▸ List.mem_map_of_mem ha)
    obtain ⟨b, hb⟩ := hrec.typed r hr
    obtain rfl : b = a := Addr.string_injective hb.isValid (hplain a ha).1
      ((normAddr_of_carries hb).symm.trans hs)
    exact ⟨r, mem_apply_of_untouched hrec.nodup_keys hts hr hrt, hrec.name r hr, hb⟩
  · obtain ⟨b, hb, hbs⟩ := exists_mem_addedAddrs ha hcur List.not_mem_nil
    obtain ⟨w, hw, rfl⟩ := List.mem_map.mp ((buildPlan_written hp).mem_iff.mpr hb)
    have hwd := (written_desired hp hw).1
    obtain ⟨r, hr, hname, ht, hc⟩ := @exists_mem_apply_of_written ids records _ hts hn _ (hwr ▸ hw)
    obtain ⟨t, htr, htn⟩ := List.mem_map.mp (buildPlan_written_name hp hw)
    rw [← Addr.string_injective (hplain _ hwd).1 (hplain a ha).1 hbs]
    exact ⟨r, hr, hname.trans (htn.symm.trans (hrec.name t htr)), (hplain _ hwd).carries hc ht⟩

include hrec hplain hp in
theorem safe_take (hne : records ≠ []) (hdes : desired ≠ []) :
    Safe name records desired (apply ids (fun _ => none) (p.take k) records).1 := by
  refine ⟨?_, fun r hr => old_or_desired_of_take hrec hplain hp hr, ?_,
    fun r' hr' r hr => type_of_take hrec hplain hp hr' hr⟩
  · rcases @deletes_take_or_written_take p k with hdel | hwr
    · obtain ⟨r, hr⟩ := List.exists_mem_of_ne_nil _ hne
      obtain ⟨a, ha⟩ := hrec.typed r hr
      obtain ⟨b, hb, -⟩ := @family_kept_of_take ids _ _ _ _ _ _ _ _ _ hrec hplain hp hdel
        ⟨r, hr, hrec.name r hr, ha⟩
      exact ⟨b, hb⟩
    · obtain ⟨a, ha⟩ := List.exists_mem_of_ne_nil _ hdes
      exact ⟨a, desired_held_of_take hrec hplain hp hwr ha⟩
  · intro a b ha hb hab
    rcases @deletes_take_or_written_take p k with hdel | hwr
    · exact family_kept_of_take hrec hplain hp hdel ha
    · exact ⟨b, desired_held_of_take hrec hplain hp hwr hb, hab⟩

include hrec hplain hp in
theorem buildPlan_apply_empty (hdes : desired ≠ []) :
    ∃ q, buildPlan sortAdded sortDeleted (apply ids (fun _ => none) p records).1 desired = some q ∧
      q.empty = true := by
  have hheld : ∀ a ∈ desired, HoldsAddr (apply ids (fun _ => none) p records).1 name a := by
    intro a ha
    have := @desired_held_of_take ids _ _ _ _ _ _ _ p.calls.length a hrec hplain hp
    rw [take_length_calls] at this
    exact this rfl ha
  refine buildPlan_empty ?_ ?_ ?_
  · obtain ⟨a, ha⟩ := List.exists_mem_of_ne_nil _ hdes
    obtain ⟨r, hr, -⟩ := hheld a ha
    exact List.ne_nil_of_mem hr
  · intro r hr
    rcases mem_apply_cases (nodup_touched hp hrec.nodup_keys) hr with ⟨hr, hrt⟩ | ⟨w, hw, -, ht, hc⟩
    · by_contra hno
      exact hrt ((mem_touched_iff hp).mpr ⟨hr, hno⟩)
    · have hd := (written_desired hp hw).1
      rw [normAddr_of_carries ((hplain _ hd).carries hc ht)]
      exact List.mem_map_of_mem hd
  · intro a ha
    obtain ⟨r, hr, -, hc⟩ := hheld a ha
    exact List.mem_map.mpr ⟨r, hr, normAddr_of_carries hc⟩

/-- A plan for the records of one name may be cut off by a failing call anywhere: the name is
left safe, no record is changed twice, and a complete execution leaves nothing to plan. -/
theorem apply_interrupted (ids : IdSource) (sortAdded : SliceSort Addr.string)
    (sortDeleted : SliceSort Model.RR.content) (records : List Model.RR) (desired : List Addr)
    (zoneID name : Str) (fail : ℕ → Option Str) (hne : records ≠ [])
    (hrec : RecordsOf zoneID name records) (hdes : desired ≠ [])
    (hplain : ∀ a ∈ desired, Plain a) :
    ∃ p, buildPlan sortAdded sortDeleted records desired = some p ∧
      Safe name records desired (apply ids fail p records).1 ∧
      ((madeCalls fail 0 p.calls).filterMap EditorCall.target).Nodup ∧
      ∃ q, buildPlan sortAdded sortDeleted (apply ids (fun _ => none) p records).1 desired =
        some q ∧ q.empty = true := by
  obtain ⟨p, hp⟩ : ∃ p, buildPlan sortAdded sortDeleted records desired = some p := by
    obtain ⟨first, rest, rfl⟩ := List.exists_cons_of_ne_nil hne
    exact ⟨_, rfl⟩
  refine ⟨p, hp, ?_, ?_, buildPlan_apply_empty hrec hplain hp hdes⟩
  · obtain ⟨k, hk⟩ := exists_apply_take ids fail p records
    rw [hk]
    exact safe_take hrec hplain hp hne hdes
  · refine List.Nodup.sublist (madeCalls_isPrefix.sublist.filterMap _) ?_
    rw [filterMap_target_calls]
    have hids : ((records.filter fun r => normAddr r.content ∉ desired.map Addr.string).map
        Model.RR.recordID).Nodup := hrec.ids.sublist (List.filter_sublist.map _)
    exact ((buildPlan_touched hp).map Model.RR.recordID).nodup_iff.mpr hids

end Interruption

def hostA' : Model.RR :=
  { name := "host.a.".toList, type := Dns.typeA, content := "2.2.2.2".toList,
    zoneID := ['a'], recordID := ['2'] }

/-- Two records to be brought to one address, with the delete failing. -/
theorem apply_interrupted_host :
    ∃ p, buildPlan default default [hostA, hostA'] [.v4 0x08080808] = some p ∧
      Safe hostA.name [hostA, hostA'] [.v4 0x08080808]
        (apply default (fun i => if i = 1 then some "timeout".toList else none) p
          [hostA, hostA']).1 ∧
      ((madeCalls (fun i => if i = 1 then some "timeout".toList else none) 0 p.calls).filterMap
        EditorCall.target).Nodup ∧
      ∃ q, buildPlan default default (apply default (fun _ => none) p [hostA, hostA']).1
        [.v4 0x08080808] = some q ∧ q.empty = true := by
  refine apply_interrupted default default default [hostA, hostA'] [.v4 0x08080808] ['a'] hostA.name
    _ (by decide) ⟨by decide, by decide, by decide, ?_⟩ (by decide) ?_
  · intro r hr
    rcases List.mem_pair.mp hr with rfl | rfl
    · exact ⟨.v4 0x01010101, by decide, rfl⟩
    · exact ⟨.v4 0x02020202, by decide, rfl⟩
  · intro a ha
    obtain rfl := List.mem_singleton.mp ha
    exact ⟨rfl, rfl, rfl⟩

end SplitDNS.DDNS
