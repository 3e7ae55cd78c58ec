import SplitDNS.DDNS.Plan

/-! # Convergence of update plans

What a record store holds after a plan has been executed, name by name. Every
missing address is written exactly once, so a plan over the records of several
names brings all of them to the desired set only when nothing is missing.
-/

namespace SplitDNS.DDNS

open Go Go.Netip Go.Strings Model

def Holds (store : List Model.RR) (name s : Str) : Prop :=
  ∃ r ∈ store, r.name = name ∧ normAddr r.content = s

instance (store : List Model.RR) (name s : Str) : Decidable (Holds store name s) :=
  inferInstanceAs (Decidable (∃ r ∈ store, _))

def Plan.touched (p : Plan) : List Model.RR := p.edits.map EditOp.record ++ p.deletes

/-- The addresses a plan writes, with the names it writes them to. -/
def Plan.written (p : Plan) : List (Str × Addr) :=
  p.edits.map (fun e => (e.record.name, e.addr)) ++ p.creates.map fun c => (c.name, c.addr)

section Execution

variable {ids : IdSource} {store : List Model.RR}

theorem execCalls_succeed (i : ℕ) (calls : List EditorCall) (store : List Model.RR) :
    execCalls ids (fun _ => none) i calls store =
      (calls.foldl (EditorCall.exec ids) store, none) := by
  induction calls generalizing i store with
  | nil => rfl
  | cons call calls ih => exact ih (i + 1) (call.exec ids store)

def EditOp.edit (e : EditOp) (r : Model.RR) : Model.RR :=
  if recordKey r = recordKey e.record
  then { r with name := e.record.name, type := typeOf e.addr, content := e.addr.string } else r

theorem recordKey_edit (e : EditOp) (r : Model.RR) : recordKey (e.edit r) = recordKey r := by
  unfold EditOp.edit
  split_ifs <;> rfl

theorem foldl_update (edits : List EditOp) (store : List Model.RR) :
    (edits.map fun e => EditorCall.update e.record.zoneID e.record.recordID e.record.name
      (typeOf e.addr) e.addr.string).foldl (EditorCall.exec ids) store =
      store.map fun r => edits.foldl (fun r e => e.edit r) r := by
  induction edits generalizing store with
  | nil => simp
  | cons e edits ih =>
    rw [List.map_cons, List.foldl_cons, ih, EditorCall.exec, List.map_map]
    rfl

theorem recordKey_foldl_edit (edits : List EditOp) (r : Model.RR) :
    recordKey (edits.foldl (fun r e => e.edit r) r) = recordKey r := by
  induction edits generalizing r with
  | nil => rfl
  | cons e edits ih => rw [List.foldl_cons, ih, recordKey_edit]

theorem foldl_edit_of_not_mem {edits : List EditOp} {r : Model.RR}
    (h : ∀ e ∈ edits, recordKey r ≠ recordKey e.record) :
    edits.foldl (fun r e => e.edit r) r = r := by
  induction edits with
  | nil => rfl
  | cons e edits ih =>
    rw [List.forall_mem_cons] at h
    rw [List.foldl_cons, EditOp.edit, if_neg h.1, ih h.2]

theorem foldl_edit_of_mem {edits : List EditOp} {e : EditOp} {r : Model.RR} (he : e ∈ edits)
    (hn : (edits.map fun e => recordKey e.record).Nodup) (hr : recordKey r = recordKey e.record) :
    edits.foldl (fun r e => e.edit r) r =
      { r with name := e.record.name, type := typeOf e.addr, content := e.addr.string } := by
  induction edits generalizing r with
  | nil => simp at he
  | cons e' edits ih =>
    rw [List.map_cons, List.nodup_cons] at hn
    rw [List.foldl_cons]
    rcases List.mem_cons.mp he with rfl | he
    · rw [EditOp.edit, if_pos hr, foldl_edit_of_not_mem]
      intro e' he' hk
      exact hn.1 (List.mem_map.mpr ⟨e', he', (hr.symm.trans hk).symm⟩)
    · rw [EditOp.edit, if_neg, ih he hn.2 hr]
      rintro hk
      exact hn.1 (List.mem_map.mpr ⟨e, he, hr.symm.trans hk⟩)

theorem foldl_create (creates : List CreateOp) (store : List Model.RR) :
    ∃ new, (creates.map fun c => EditorCall.create c.zoneID c.name (typeOf c.addr)
        c.addr.string).foldl (EditorCall.exec ids) store = store ++ new ∧
      (new.map fun r => (r.name, r.type, r.content)) =
        creates.map (fun c => (c.name, typeOf c.addr, c.addr.string)) ∧
      ∀ r ∈ new, ∀ s ∈ store, recordKey r ≠ recordKey s := by
  induction creates generalizing store with
  | nil => exact ⟨[], by simp⟩
  | cons c creates ih =>
    obtain ⟨new, hfold, hmap, hfresh⟩ := ih (EditorCall.exec ids store
      (.create c.zoneID c.name (typeOf c.addr) c.addr.string))
    let first : Model.RR :=
      { name := c.name
        type := typeOf c.addr
        content := c.addr.string
        zoneID := c.zoneID
        recordID := ids.next store
        cls := Dns.classINET }
    refine ⟨first :: new, ?_, ?_, ?_⟩
    · rw [List.map_cons, List.foldl_cons, hfold, EditorCall.exec, List.append_assoc]
      rfl
    · rw [List.map_cons, hmap, List.map_cons]
    · intro r hr s hs hk
      rcases List.mem_cons.mp hr with rfl | hr
      · exact ids.fresh store s hs (congrArg Prod.snd hk).symm
      · exact hfresh r hr s (List.mem_append_left _ hs) hk

theorem foldl_delete (deletes : List Model.RR) (store : List Model.RR) :
    (deletes.map fun d => EditorCall.delete d.zoneID d.recordID).foldl (EditorCall.exec ids) store =
      store.filter fun r => recordKey r ∉ deletes.map recordKey := by
  induction deletes generalizing store with
  | nil => simp
  | cons d deletes ih =>
    rw [List.map_cons, List.foldl_cons, ih, EditorCall.exec, List.filter_filter]
    refine List.filter_congr fun r _ => ?_
    rw [← Bool.decide_and]
    refine decide_eq_decide.mpr ?_
    rw [List.map_cons, List.mem_cons, not_or, and_comm]
    rfl

theorem apply_store (ids : IdSource) (p : Plan) (store : List Model.RR) :
    ∃ new, (apply ids (fun _ => none) p store).1 =
        ((store.map fun r => p.edits.foldl (fun r e => e.edit r) r) ++ new).filter
          (fun r => recordKey r ∉ p.deletes.map recordKey) ∧
      (new.map fun r => (r.name, r.type, r.content)) =
        p.creates.map (fun c => (c.name, typeOf c.addr, c.addr.string)) ∧
      ∀ r ∈ new, ∀ s ∈ store, recordKey r ≠ recordKey s := by
  obtain ⟨new, hfold, hmap, hfresh⟩ := @foldl_create ids p.creates
    (store.map fun r => p.edits.foldl (fun r e => e.edit r) r)
  refine ⟨new, ?_, hmap, fun r hr s hs hk => hfresh r hr _ (List.mem_map_of_mem hs) ?_⟩
  · rw [apply, execCalls_succeed, Plan.calls, List.foldl_append, List.foldl_append, foldl_update,
      hfold, foldl_delete]
  · rw [recordKey_foldl_edit, hk]

section Effect

variable {p : Plan} (hs : (store.map recordKey).Nodup) (ht : ∀ r ∈ p.touched, r ∈ store)
  (hn : (p.touched.map recordKey).Nodup)

include hn in
theorem nodup_edits : (p.edits.map fun e => recordKey e.record).Nodup := by
  rw [Plan.touched, List.map_append, List.map_map] at hn
  exact hn.of_append_left

theorem record_mem_touched {e : EditOp} (he : e ∈ p.edits) : e.record ∈ p.touched :=
  List.mem_append_left _ (List.mem_map_of_mem he)

theorem delete_mem_touched {d : Model.RR} (hd : d ∈ p.deletes) : d ∈ p.touched :=
  List.mem_append_right _ hd

include hn in
theorem mem_apply_cases {r : Model.RR} (hr : r ∈ (apply ids (fun _ => none) p store).1) :
    (r ∈ store ∧ r ∉ p.touched) ∨
      ∃ w ∈ p.written, r.name = w.1 ∧ r.type = typeOf w.2 ∧ r.content = w.2.string := by
  obtain ⟨new, hstore, hmap, -⟩ := apply_store ids p store
  rw [hstore, List.mem_filter, List.mem_append, decide_eq_true_eq] at hr
  obtain ⟨hr | hr, hkey⟩ := hr
  · obtain ⟨r₀, hr₀, rfl⟩ := List.mem_map.mp hr
    rw [recordKey_foldl_edit] at hkey
    by_cases he : ∃ e ∈ p.edits, recordKey r₀ = recordKey e.record
    · obtain ⟨e, he, hk⟩ := he
      rw [foldl_edit_of_mem he (nodup_edits hn) hk]
      exact Or.inr ⟨_, List.mem_append_left _ (List.mem_map_of_mem he), rfl, rfl, rfl⟩
    · push Not at he
      rw [foldl_edit_of_not_mem he]
      refine Or.inl ⟨hr₀, fun htt => ?_⟩
      rcases List.mem_append.mp htt with htt | htt
      · obtain ⟨e, hm, rfl⟩ := List.mem_map.mp htt
        exact he e hm rfl
      · exact hkey (List.mem_map_of_mem htt)
  · have hc : (r.name, r.type, r.content) ∈
        p.creates.map fun c => (c.name, typeOf c.addr, c.addr.string) :=
      hmap ▸ List.mem_map_of_mem hr
    obtain ⟨c, hc, hce⟩ := List.mem_map.mp hc
    simp only [Prod.mk.injEq] at hce
    exact Or.inr ⟨(c.name, c.addr), List.mem_append_right _ (List.mem_map_of_mem hc),
      hce.1.symm, hce.2.1.symm, hce.2.2.symm⟩

include hn in
theorem holds_of_apply {name s : Str} (h : Holds (apply ids (fun _ => none) p store).1 name s) :
    (∃ r ∈ store, r ∉ p.touched ∧ r.name = name ∧ normAddr r.content = s) ∨
      ∃ w ∈ p.written, w.1 = name ∧ normAddr w.2.string = s := by
  obtain ⟨r, hr, hname, hcontent⟩ := h
  rcases mem_apply_cases hn hr with ⟨hr, hrt⟩ | ⟨w, hw, hwn, -, hwc⟩
  · exact Or.inl ⟨r, hr, hrt, hname, hcontent⟩
  · exact Or.inr ⟨w, hw, hwn.symm.trans hname, hwc ▸ hcontent⟩

include hs ht in
theorem mem_apply_of_untouched {r : Model.RR} (hr : r ∈ store) (hrt : r ∉ p.touched) :
    r ∈ (apply ids (fun _ => none) p store).1 := by
  obtain ⟨new, hstore, -, -⟩ := apply_store ids p store
  have hkey : ∀ t ∈ p.touched, recordKey r ≠ recordKey t := fun t htt hk =>
    hrt (List.inj_on_of_nodup_map hs hr (ht t htt) hk ▸ htt)
  rw [hstore, List.mem_filter, List.mem_append, decide_eq_true_eq]
  refine ⟨Or.inl (List.mem_map.mpr ⟨r, hr, ?_⟩), fun hk => ?_⟩
  · exact foldl_edit_of_not_mem fun e he => hkey _ (record_mem_touched he)
  · obtain ⟨d, hd, hk⟩ := List.mem_map.mp hk
    exact hkey d (delete_mem_touched hd) hk.symm

include ht hn in
theorem exists_mem_apply_of_written {w : Str × Addr} (hw : w ∈ p.written) :
    ∃ r ∈ (apply ids (fun _ => none) p store).1,
      r.name = w.1 ∧ r.type = typeOf w.2 ∧ r.content = w.2.string := by
  obtain ⟨new, hstore, hmap, hfresh⟩ := apply_store ids p store
  rcases List.mem_append.mp hw with hw | hw
  · obtain ⟨e, he, rfl⟩ := List.mem_map.mp hw
    have hedit := foldl_edit_of_mem he (nodup_edits hn) rfl
    refine ⟨p.edits.foldl (fun r e => e.edit r) e.record, ?_, by rw [hedit], by rw [hedit],
      by rw [hedit]⟩
    rw [hstore, List.mem_filter, List.mem_append, decide_eq_true_eq, recordKey_foldl_edit]
    refine ⟨Or.inl (List.mem_map_of_mem (ht _ (record_mem_touched he))), fun hk => ?_⟩
    rw [Plan.touched, List.map_append] at hn
    exact List.disjoint_of_nodup_append hn (List.mem_map_of_mem (List.mem_map_of_mem he)) hk
  · obtain ⟨c, hc, rfl⟩ := List.mem_map.mp hw
    have hm : (c.name, typeOf c.addr, c.addr.string) ∈
        new.map fun r => (r.name, r.type, r.content) :=
      hmap ▸ List.mem_map_of_mem hc
    obtain ⟨r, hr, hre⟩ := List.mem_map.mp hm
    simp only [Prod.mk.injEq] at hre
    refine ⟨r, ?_, hre⟩
    rw [hstore, List.mem_filter, List.mem_append, decide_eq_true_eq]
    refine ⟨Or.inr hr, fun hk => ?_⟩
    obtain ⟨d, hd, hk⟩ := List.mem_map.mp hk
    exact hfresh r hr d (ht d (delete_mem_touched hd)) hk.symm

include ht hn in
theorem holds_apply_of_written {w : Str × Addr} (hw : w ∈ p.written) :
    Holds (apply ids (fun _ => none) p store).1 w.1 (normAddr w.2.string) := by
  obtain ⟨r, hr, hname, -, hcontent⟩ := exists_mem_apply_of_written ht hn hw
  exact ⟨r, hr, hname, by rw [hcontent]⟩

end Effect

end Execution

section Planning

variable {sortAdded : SliceSort Addr.string} {sortDeleted : SliceSort Model.RR.content}
  {records : List Model.RR} {desired : List Addr} {p : Plan}

theorem familyPlan_touched (zoneID name : Str) (added : List Addr) (deleted : List Model.RR) :
    (familyPlan zoneID name added deleted).touched = deleted := by
  have hrec : (List.zipWith EditOp.mk deleted added).map EditOp.record =
      deleted.take (min added.length deleted.length) := by
    induction deleted generalizing added with
    | nil => simp
    | cons d deleted ih =>
      cases added with
      | nil => simp
      | cons a added => simp [ih, Nat.add_min_add_right]
  rw [Plan.touched, familyPlan, hrec, List.take_append_drop]

theorem familyPlan_written (zoneID name : Str) (added : List Addr) (deleted : List Model.RR) :
    (familyPlan zoneID name added deleted).written.map Prod.snd = added := by
  have haddr : (List.zipWith EditOp.mk deleted added).map EditOp.addr =
      added.take (min added.length deleted.length) := by
    induction deleted generalizing added with
    | nil => simp
    | cons d deleted ih =>
      cases added with
      | nil => simp
      | cons a added => simp [ih, Nat.add_min_add_right]
  rw [Plan.written, familyPlan, List.map_append, List.map_map, List.map_map, List.map_map]
  exact (congrArg₂ _ haddr (List.map_id _)).trans (List.take_append_drop _ _)

theorem mem_addedAddrs {curSet seen : List Str} {a : Addr}
    (h : a ∈ addedAddrs curSet seen desired) :
    a ∈ desired ∧ a.string ∉ curSet ∧ a.string ∉ seen := by
  induction desired generalizing seen with
  | nil => simp [addedAddrs] at h
  | cons b desired ih =>
    rw [addedAddrs] at h
    split_ifs at h with hseen hcur
    · obtain ⟨h₁, h₂⟩ := ih h
      exact ⟨List.mem_cons_of_mem _ h₁, h₂⟩
    · obtain ⟨h₁, h₂, h₃⟩ := ih h
      exact ⟨List.mem_cons_of_mem _ h₁, h₂, fun hs => h₃ (List.mem_cons_of_mem _ hs)⟩
    · rcases List.mem_cons.mp h with rfl | h
      · exact ⟨List.mem_cons_self, hcur, hseen⟩
      · obtain ⟨h₁, h₂, h₃⟩ := ih h
        exact ⟨List.mem_cons_of_mem _ h₁, h₂, fun hs => h₃ (List.mem_cons_of_mem _ hs)⟩

theorem exists_mem_addedAddrs {curSet seen : List Str} {a : Addr} (ha : a ∈ desired)
    (hcur : a.string ∉ curSet) (hseen : a.string ∉ seen) :
    ∃ b ∈ addedAddrs curSet seen desired, b.string = a.string := by
  induction desired generalizing seen with
  | nil => simp at ha
  | cons b desired ih =>
    rw [addedAddrs]
    rcases eq_or_ne b.string a.string with hb | hb
    · rw [if_neg (hb ▸ hseen), if_neg (hb ▸ hcur)]
      exact ⟨b, List.mem_cons_self, hb⟩
    · have ha : a ∈ desired := by
        rcases List.mem_cons.mp ha with rfl | ha
        · exact absurd rfl hb
        · exact ha
      have hseen' : a.string ∉ b.string :: seen := by
        simp [hb.symm, hseen]
      split_ifs
      · exact ih ha hseen
      · exact ih ha hseen'
      · obtain ⟨x, hx, he⟩ := ih ha hseen'
        exact ⟨x, List.mem_cons_of_mem _ hx, he⟩

theorem nodup_addedAddrs (curSet seen : List Str) (desired : List Addr) :
    ((addedAddrs curSet seen desired).map Addr.string).Nodup := by
  induction desired generalizing seen with
  | nil => simp [addedAddrs]
  | cons b desired ih =>
    rw [addedAddrs]
    split_ifs
    · exact ih seen
    · exact ih _
    · rw [List.map_cons, List.nodup_cons]
      refine ⟨?_, ih _⟩
      rintro h
      obtain ⟨x, hx, he⟩ := List.mem_map.mp h
      exact (mem_addedAddrs hx).2.2 (he ▸ List.mem_cons_self)

theorem touched_append (p q : Plan) : (p.append q).touched.Perm (p.touched ++ q.touched) := by
  simp only [Plan.touched, Plan.append, List.map_append, List.append_assoc]
  exact (List.perm_append_comm_assoc _ _ _).append_left _

theorem written_append (p q : Plan) : (p.append q).written.Perm (p.written ++ q.written) := by
  simp only [Plan.written, Plan.append, List.map_append, List.append_assoc]
  exact (List.perm_append_comm_assoc _ _ _).append_left _

theorem perm_sort_families {α β : Type*} [LinearOrder β] {key : α → β} (s : SliceSort key)
    (is6 : α → Bool) (l : List α) :
    (s.sort (l.filter fun x => is6 x = false) ++
      s.sort (l.filter fun x => is6 x = true)).Perm l := by
  refine ((s.perm _).append (s.perm _)).trans (List.perm_append_comm.trans ?_)
  have : (fun x => decide (is6 x = false)) = fun x => !decide (is6 x = true) := by
    funext x
    cases is6 x <;> rfl
  rw [this]
  exact List.filter_append_perm _ l

theorem buildPlan_eq (hp : buildPlan sortAdded sortDeleted records desired = some p) :
    ∃ first ∈ records, ∃ a₄ a₆ d₄ d₆,
      (a₄ ++ a₆).Perm (addedAddrs (records.map fun r => normAddr r.content) [] desired) ∧
      (d₄ ++ d₆).Perm (records.filter fun r => normAddr r.content ∉ desired.map Addr.string) ∧
      p = (familyPlan first.zoneID first.name a₄ d₄).append
        (familyPlan first.zoneID first.name a₆ d₆) := by
  rcases records with _ | ⟨first, rest⟩
  · simp [buildPlan] at hp
  · exact ⟨first, List.mem_cons_self, _, _, _, _, perm_sort_families sortAdded _ _,
      perm_sort_families sortDeleted _ _, (Option.some.inj hp).symm⟩

theorem buildPlan_touched (hp : buildPlan sortAdded sortDeleted records desired = some p) :
    p.touched.Perm (records.filter fun r => normAddr r.content ∉ desired.map Addr.string) := by
  obtain ⟨first, -, a₄, a₆, d₄, d₆, -, hd, rfl⟩ := buildPlan_eq hp
  refine (touched_append _ _).trans ?_
  rwa [familyPlan_touched, familyPlan_touched]

theorem mem_touched_iff (hp : buildPlan sortAdded sortDeleted records desired = some p)
    {r : Model.RR} :
    r ∈ p.touched ↔ r ∈ records ∧ normAddr r.content ∉ desired.map Addr.string := by
  rw [(buildPlan_touched hp).mem_iff, List.mem_filter, decide_eq_true_eq]

theorem nodup_touched (hp : buildPlan sortAdded sortDeleted records desired = some p)
    (hids : (records.map recordKey).Nodup) : (p.touched.map recordKey).Nodup :=
  (((buildPlan_touched hp).map recordKey).nodup_iff).mpr
    (hids.sublist (List.filter_sublist.map _))

theorem buildPlan_written (hp : buildPlan sortAdded sortDeleted records desired = some p) :
    (p.written.map Prod.snd).Perm
      (addedAddrs (records.map fun r => normAddr r.content) [] desired) := by
  obtain ⟨first, -, a₄, a₆, d₄, d₆, ha, -, rfl⟩ := buildPlan_eq hp
  refine ((written_append _ _).map _).trans ?_
  rwa [List.map_append, familyPlan_written, familyPlan_written]

theorem familyPlan_creates_name {zoneID name : Str} {added : List Addr} {deleted : List Model.RR}
    {c : CreateOp} (hc : c ∈ (familyPlan zoneID name added deleted).creates) : c.name = name := by
  obtain ⟨a, -, rfl⟩ := List.mem_map.mp hc
  rfl

theorem buildPlan_written_name (hp : buildPlan sortAdded sortDeleted records desired = some p)
    {w : Str × Addr} (hw : w ∈ p.written) : w.1 ∈ records.map Model.RR.name := by
  rcases List.mem_append.mp hw with hw | hw
  · obtain ⟨e, he, rfl⟩ := List.mem_map.mp hw
    have := (buildPlan_touched hp).mem_iff.mp (record_mem_touched he)
    exact List.mem_map_of_mem (List.mem_of_mem_filter this)
  · obtain ⟨c, hc, rfl⟩ := List.mem_map.mp hw
    obtain ⟨first, hf, a₄, a₆, d₄, d₆, -, -, rfl⟩ := buildPlan_eq hp
    have hname : c.name = first.name := by
      rcases List.mem_append.mp hc with hc | hc
      · exact familyPlan_creates_name hc
      · exact familyPlan_creates_name hc
    exact List.mem_map.mpr ⟨first, hf, hname.symm⟩

end Planning

theorem normAddr_string {a : Addr} (hv : a.isValid) (hu : a.unmap = a) (hz : a.zone = []) :
    normAddr a.string = a.string := by
  have ht : trimSpace a.string = a.string :=
    trimSpace_of_not_isSpace fun c hc => (Addr.mem_string hv hz hc).1
  simp only [normAddr, ht, parseAddr_string hv, hu]

section Convergence

variable {ids : IdSource} {sortAdded : SliceSort Addr.string}
  {sortDeleted : SliceSort Model.RR.content} {records : List Model.RR} {desired : List Addr}
  {p : Plan}

/-- What a name of the records holds after their plan: the desired addresses it held before,
and the missing ones written to it. -/
theorem holds_apply_buildPlan_iff (hids : (records.map recordKey).Nodup)
    (hd : ∀ a ∈ desired, a.isValid ∧ a.unmap = a ∧ a.zone = [])
    (hp : buildPlan sortAdded sortDeleted records desired = some p) {name s : Str} :
    Holds (apply ids (fun _ => none) p records).1 name s ↔
      (s ∈ desired.map Addr.string ∧ Holds records name s) ∨
        ∃ w ∈ p.written, w.1 = name ∧ w.2.string = s := by
  have hts : ∀ r ∈ p.touched, r ∈ records := fun r hr => ((mem_touched_iff hp).mp hr).1
  have hn := nodup_touched hp hids
  have hw : ∀ w ∈ p.written, normAddr w.2.string = w.2.string := by
    intro w hw
    have := mem_addedAddrs ((buildPlan_written hp).mem_iff.mp (List.mem_map_of_mem hw))
    obtain ⟨hv, hu, hz⟩ := hd _ this.1
    exact normAddr_string hv hu hz
  constructor
  · intro h
    rcases holds_of_apply hn h with ⟨r, hr, hrt, hname, rfl⟩ | ⟨w, hwm, hname, hs⟩
    · refine Or.inl ⟨?_, r, hr, hname, rfl⟩
      by_contra hno
      exact hrt ((mem_touched_iff hp).mpr ⟨hr, hno⟩)
    · exact Or.inr ⟨w, hwm, hname, (hw w hwm).symm.trans hs⟩
  · rintro (⟨hs, r, hr, hname, rfl⟩ | ⟨w, hwm, rfl, rfl⟩)
    · have hrt : r ∉ p.touched := fun h => ((mem_touched_iff hp).mp h).2 hs
      exact ⟨r, mem_apply_of_untouched hids hts hr hrt, hname, rfl⟩
    · have := @holds_apply_of_written ids records p hts hn w hwm
      rwa [hw w hwm] at this

theorem written_desired (hp : buildPlan sortAdded sortDeleted records desired = some p)
    {w : Str × Addr} (hw : w ∈ p.written) :
    w.2 ∈ desired ∧ w.2.string ∉ records.map fun r => normAddr r.content := by
  have := mem_addedAddrs ((buildPlan_written hp).mem_iff.mp (List.mem_map_of_mem hw))
  exact ⟨this.1, this.2.1⟩

theorem written_unique (hp : buildPlan sortAdded sortDeleted records desired = some p)
    {w w' : Str × Addr} (hw : w ∈ p.written) (hw' : w' ∈ p.written)
    (h : w.2.string = w'.2.string) : w = w' := by
  have hn : (p.written.map fun w => w.2.string).Nodup := by
    have := ((buildPlan_written hp).map Addr.string).nodup_iff.mpr (nodup_addedAddrs _ _ _)
    rwa [List.map_map] at this
  exact List.inj_on_of_nodup_map hn hw hw' h

/-- After its plan every name of the records holds exactly the desired addresses iff the
records have one name, or every name already holds every desired address. -/
theorem buildPlan_converges_iff (ids : IdSource) (hids : (records.map recordKey).Nodup)
    (hd : ∀ a ∈ desired, a.isValid ∧ a.unmap = a ∧ a.zone = [])
    (hp : buildPlan sortAdded sortDeleted records desired = some p) :
    (∀ name ∈ records.map Model.RR.name, ∀ s,
      Holds (apply ids (fun _ => none) p records).1 name s ↔ s ∈ desired.map Addr.string) ↔
    (∀ r ∈ records, ∀ r' ∈ records, r.name = r'.name) ∨
      ∀ r ∈ records, ∀ a ∈ desired, Holds records r.name a.string := by
  have key {name s : Str} := @holds_apply_buildPlan_iff ids _ _ _ _ _ hids hd hp name s
  constructor
  · intro h
    by_contra hno
    push Not at hno
    obtain ⟨⟨r₁, hr₁, r₂, hr₂, hne⟩, r, hr, a, ha, hnot⟩ := hno
    -- the missing address is written to one name, and another name goes without it
    have hlands : ∀ r' ∈ records, ∃ w ∈ p.written, w.1 = r'.name ∧ w.2.string = a.string := by
      have hcur : a.string ∉ records.map fun r => normAddr r.content := by
        rcases key.mp ((h _ (List.mem_map_of_mem hr) _).mpr (List.mem_map_of_mem ha)) with
          ⟨-, hold⟩ | ⟨w, hw, -, hs⟩
        · exact absurd hold hnot
        · exact hs ▸ (written_desired hp hw).2
      intro r' hr'
      rcases key.mp ((h _ (List.mem_map_of_mem hr') _).mpr (List.mem_map_of_mem ha)) with
        ⟨-, t, ht, -, hs⟩ | hw
      · exact absurd (List.mem_map.mpr ⟨t, ht, hs⟩) hcur
      · exact hw
    obtain ⟨w₁, hw₁, hn₁, hs₁⟩ := hlands r₁ hr₁
    obtain ⟨w₂, hw₂, hn₂, hs₂⟩ := hlands r₂ hr₂
    have hw := written_unique hp hw₁ hw₂ (hs₁.trans hs₂.symm)
    exact hne (hn₁.symm.trans ((congrArg Prod.fst hw).trans hn₂))
  · intro h name hname s
    rw [key]
    obtain ⟨r, hr, rfl⟩ := List.mem_map.mp hname
    constructor
    · rintro (⟨hs, -⟩ | ⟨w, hw, -, rfl⟩)
      · exact hs
      · exact List.mem_map_of_mem (written_desired hp hw).1
    · intro hs
      obtain ⟨a, ha, rfl⟩ := List.mem_map.mp hs
      rcases h with hone | hall
      · by_cases hcur : a.string ∈ records.map fun r => normAddr r.content
        · obtain ⟨t, ht, hts⟩ := List.mem_map.mp hcur
          exact Or.inl ⟨hs, t, ht, hone t ht r hr, hts⟩
        · obtain ⟨b, hb, hbs⟩ := exists_mem_addedAddrs ha hcur List.not_mem_nil
          obtain ⟨w, hw, rfl⟩ := List.mem_map.mp ((buildPlan_written hp).mem_iff.mpr hb)
          obtain ⟨t, ht, htn⟩ := List.mem_map.mp (buildPlan_written_name hp hw)
          exact Or.inr ⟨w, hw, htn.symm.trans (hone t ht r hr), hbs⟩
      · exact Or.inl ⟨hs, hall r hr a ha⟩

end Convergence

def hostA : Model.RR :=
  { name := "host.a.".toList, type := Dns.typeA, content := "1.1.1.1".toList,
    zoneID := ['a'], recordID := ['1'] }

def hostB : Model.RR :=
  { name := "host.b.".toList, type := Dns.typeA, content := "2.2.2.2".toList,
    zoneID := ['b'], recordID := ['1'] }

/-- With the address already at one of two names, the plan only deletes the other's record. -/
theorem buildPlan_drops_second_name :
    (buildPlan default default [hostA, hostB] [.v4 0x01010101]).map
        (fun p => (apply default (fun _ => none) p [hostA, hostB]).1) = some [hostA] ∧
      ¬ Holds [hostA] hostB.name (Addr.v4 0x01010101).string := by
  decide

theorem buildPlan_converges_iff_host :
    ∃ p, buildPlan default default [hostA] [.v4 0x08080808] = some p ∧
      ∀ name ∈ [hostA].map Model.RR.name, ∀ s,
        Holds (apply default (fun _ => none) p [hostA]).1 name s ↔
          s ∈ [Addr.v4 0x08080808].map Addr.string :=
  ⟨_, rfl, (buildPlan_converges_iff default (by decide) (by decide) rfl).mpr (Or.inl (by simp))⟩

end SplitDNS.DDNS
