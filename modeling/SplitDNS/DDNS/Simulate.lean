import SplitDNS.DDNS.Pipeline

/-! # The simulation

The diagnostics compute what the writer would do for a change without writing.
The simulation has its own copy of the guards, and its own text for every call of
the plan. For an enabled writer it agrees with what a new writer does: it reports
a dry run exactly if the writer is in one, and its calls are the editor's.
-/

namespace SplitDNS.DDNS

open Go Go.Netip Go.Strings Dns Model Netmatch

structure SimCall where
  op : Str
  name : Str
  type : Str
  content : Str
  old : Str := []
  deriving DecidableEq

structure SimResult where
  host : Str
  outcome : Str := []
  enabled : Bool
  dryRun : Bool
  override : Bool
  calls : List SimCall := []
  note : Str := []
  deriving DecidableEq

def wouldApply : Str := "would-apply".toList

theorem Outcome.text_ne_wouldApply (o : Outcome) : o.text ≠ wouldApply := by
  cases o <;> decide

def noteAllPrivate : Str :=
  ("every announced address is private/non-routable; DDNS only ever publishes public addresses, " ++
    "so there is nothing to write.").toList

def noteNotListed : Str :=
  ("this host has records but is NOT on the [ddns] eligible allowlist — switch to Explore to " ++
    "see what write-back would do, then add it to eligible to make it real.").toList

def noteNoRecord : Str :=
  ("DDNS write-back only UPDATES a host's existing non-proxied A/AAAA records to track a " ++
    "changing public IP. It never creates new hostnames, and never manages other record types — " ++
    "MX/TXT/CNAME are static records you configure in Cloudflare (splitdns mirrors them " ++
    "read-only). This host has no A/AAAA record to update; simulate a host that already has one " ++
    "to see write-back.").toList

def noteExplore : Str :=
  ("EXPLORE ONLY: this host is NOT on the [ddns] eligible allowlist, so production write-back " ++
    "would SKIP it. Add it to eligible to make this real.").toList

def noteNoAllowlist : Str :=
  ("the [ddns] eligible allowlist is empty, so production write-back is in forced dry-run " ++
    "(deny-all) — these calls would NOT be sent until you add this host to eligible.").toList

def noteDisabled : Str :=
  ("DDNS is disabled ([ddns] enabled=false); these calls would be sent once write-back is " ++
    "enabled.").toList

def noteDryRun : Str :=
  ("DDNS is in dry-run ([ddns] dry_run=true); these calls would be sent once " ++
    "dry_run=false.").toList

/-- The calls of a plan as the simulation lists them. -/
def Plan.simCalls (p : Plan) : List SimCall :=
  p.edits.map (fun e => ⟨"update".toList, e.record.name, typeToString (typeOf e.addr),
    e.addr.string, e.record.content⟩) ++
  p.creates.map (fun c => ⟨"create".toList, c.name, typeToString (typeOf c.addr),
    c.addr.string, []⟩) ++
  p.deletes.map fun d => ⟨"delete".toList, d.name, typeToString d.type, [], []⟩

/-- Whether the calls would happen for real, and what to change. -/
def simNote (cfg : Config) (records : List Model.RR) (ignoreEligible : Bool) : Str :=
  if ignoreEligible && cfg.eligible.entries ≠ [] &&
      filterEligibleRecords records cfg.eligible = [] then noteExplore
  else if cfg.eligible.entries = [] then noteNoAllowlist
  else if !cfg.enabled then noteDisabled
  else if cfg.dryRun then noteDryRun
  else []

/-- `Simulate`. The two sorts of a plan are chosen as for a reconciliation. -/
def simulate (cfg : Config) (source : Str → Except Str (List Model.RR)) (c : Change)
    (ignoreEligible : Bool) (sortAdded : SliceSort Addr.string)
    (sortDeleted : SliceSort Model.RR.content) : SimResult :=
  let res : SimResult :=
    { host := c.key
      enabled := cfg.enabled
      dryRun := cfg.dryRun || (cfg.enabled && cfg.eligible.entries = [])
      override := ignoreEligible }
  if c.desired = [] then
    { res with
      outcome := Outcome.noPublic.text
      note := if c.addrs ≠ [] then noteAllPrivate else [] }
  else
    match source res.host with
    | .error err => { res with outcome := Outcome.error.text, note := err }
    | .ok records =>
      let eligible := if ignoreEligible then ∅ else cfg.eligible
      match buildPlan sortAdded sortDeleted (filterEligibleRecords records eligible) c.desired with
      | none =>
        { res with
          outcome := Outcome.notEligible.text
          note :=
            if !ignoreEligible && cfg.eligible.entries ≠ [] &&
                filterEligibleRecords records ∅ ≠ [] then noteNotListed
            else noteNoRecord }
      | some p =>
        if p.empty then { res with outcome := Outcome.unchanged.text }
        else
          { res with
            outcome := wouldApply
            calls := p.simCalls
            note := simNote cfg records ignoreEligible }

/-- The simulated call is the editor's call, in operation, name, type and new content. A deletion
has only the identity of its record, which is one of the host's. -/
def SimCall.Shows (records : List Model.RR) (s : SimCall) : EditorCall → Prop
  | .update _ _ name type content =>
    s.op = "update".toList ∧ s.name = name ∧ s.type = typeToString type ∧ s.content = content
  | .create _ name type content =>
    s.op = "create".toList ∧ s.name = name ∧ s.type = typeToString type ∧ s.content = content
  | .delete zoneID recordID =>
    s.op = "delete".toList ∧ s.content = [] ∧ ∃ r ∈ records, r.zoneID = zoneID ∧
      r.recordID = recordID ∧ s.name = r.name ∧ s.type = typeToString r.type

theorem Plan.simCalls_shows {p : Plan} {records : List Model.RR}
    (h : ∀ d ∈ p.deletes, d ∈ records) :
    List.Forall₂ (SimCall.Shows records) p.simCalls p.calls := by
  refine List.rel_append (List.rel_append ?_ ?_) ?_
  · rw [List.forall₂_map_left_iff, List.forall₂_map_right_iff]
    exact List.forall₂_same.mpr fun e _ => ⟨rfl, rfl, rfl, rfl⟩
  · rw [List.forall₂_map_left_iff, List.forall₂_map_right_iff]
    exact List.forall₂_same.mpr fun c _ => ⟨rfl, rfl, rfl, rfl⟩
  · rw [List.forall₂_map_left_iff, List.forall₂_map_right_iff]
    exact List.forall₂_same.mpr fun d hd => ⟨rfl, rfl, d, h d hd, rfl, rfl, rfl, rfl⟩

section Fresh

variable {F : Type*} [Float64 F] [LawfulFloat64 F] {cfg : Config} {start now : Time}

open LawfulFloat64

theorem TokenBucket.allow_full {burst : ℤ} {refillPer : Duration} (hburst : 0 < burst)
    (hrefill : 0 < refillPer) (hclock : start ≤ now) :
    (TokenBucket.allow (F := F)
      ⟨Float64.ofInt burst, Float64.ofInt burst, refillPer, start⟩ now).2 = true := by
  have hone : Float64.le (Float64.ofInt 1 : F) (Float64.ofInt burst) = true := ofInt_le hburst
  have hgained : Float64.le (Float64.ofInt 0 : F)
      (Float64.div (seconds (now - start)) (seconds refillPer)) = true :=
    div_nonneg (seconds_nonneg (Int.sub_nonneg_of_le hclock)) (seconds_pos hrefill)
  have hmore := le_trans hone (le_add (ofInt_le hburst.le) hgained)
  have htokens : Float64.le (Float64.ofInt 1 : F)
      (if start ≠ zeroTime then mathMin (Float64.ofInt burst) (Float64.add (Float64.ofInt burst)
          (Float64.div (seconds (now - start)) (seconds refillPer)))
        else Float64.ofInt burst) = true := by
    unfold mathMin
    split_ifs
    · exact hone
    · exact hmore
    · exact hone
  unfold allow
  rw [if_neg (not_le.mpr hrefill)]
  dsimp only
  rw [if_pos htokens]

theorem Writer.new_admits (cfg : Config) (host : Str) (hclock : start ≤ now) :
    (Writer.new cfg start : Writer F).admits host now = true := by
  have hglobal :
      (Writer.new cfg start : Writer F).global.all (fun b => (b.allow now).2) = true := by
    unfold Writer.new
    dsimp only
    split_ifs with h
    · simp only [Bool.and_eq_true, decide_eq_true_eq] at h
      exact TokenBucket.allow_full h.1 h.2 hclock
    · rfl
  rw [Writer.admits, hglobal, Bool.and_true, Bool.not_eq_true']
  exact Bool.and_false _

end Fresh

/-- The records that the source has for the host of a request. -/
def Request.records (x : Request) : List Model.RR :=
  match x.source x.change.key with
  | .ok records => records
  | .error _ => []

/-- The work that there is for a request: a plan that is not empty. -/
def Request.work (x : Request) (eligible : Map Str Bool) : Option Plan :=
  if x.change.desired = [] then none
  else
    (buildPlan x.sortAdded x.sortDeleted (filterEligibleRecords x.records eligible)
      x.change.desired).filter fun p => !p.empty

variable {F : Type*} [Float64 F] {cfg : Config} {x : Request} {start : Time} {p : Plan}
  {eligible : Map Str Bool}

theorem Request.records_of_error {err : Str} (h : x.source x.change.key = .error err) :
    x.records = [] := by
  rw [Request.records, h]

theorem Request.records_of_ok {records : List Model.RR}
    (h : x.source x.change.key = .ok records) : x.records = records := by
  rw [Request.records, h]

theorem Request.mem_records_of_work (h : x.work eligible = some p) {d : Model.RR}
    (hd : d ∈ p.deletes) : d ∈ x.records := by
  unfold Request.work at h
  split_ifs at h
  obtain ⟨hp, -⟩ := Option.filter_eq_some_iff.mp h
  exact List.mem_of_mem_filter ((mem_touched_iff hp).mp (delete_mem_touched hd)).1

theorem Request.work_of_plan (hdesired : x.change.desired ≠ [])
    (hp : buildPlan x.sortAdded x.sortDeleted (filterEligibleRecords x.records eligible)
      x.change.desired = some p) : x.work eligible = if p.empty then none else some p := by
  rw [Request.work, if_neg hdesired, hp, Option.filter_some]
  cases p.empty <;> rfl

theorem simulate_spec (cfg : Config) (x : Request) :
    let res := simulate cfg x.source x.change false x.sortAdded x.sortDeleted
    res.dryRun = (cfg.dryRun || (cfg.enabled && cfg.eligible.entries = [])) ∧
      (x.work cfg.eligible = none ∧ res.calls = [] ∧ res.outcome ≠ wouldApply ∨
        ∃ p, x.work cfg.eligible = some p ∧ res.calls = p.simCalls ∧ res.outcome = wouldApply) := by
  dsimp only
  unfold simulate
  dsimp only
  by_cases hdesired : x.change.desired = []
  · rw [if_pos hdesired]
    exact ⟨rfl, Or.inl ⟨if_pos hdesired, rfl, Outcome.text_ne_wouldApply .noPublic⟩⟩
  rw [if_neg hdesired]
  rcases hsource : x.source x.change.key with err | records
  · have hwork : x.work cfg.eligible = none := by
      rw [Request.work, if_neg hdesired, Request.records_of_error hsource]
      rfl
    exact ⟨rfl, Or.inl ⟨hwork, rfl, Outcome.text_ne_wouldApply .error⟩⟩
  have hrecords := Request.records_of_ok hsource
  rw [if_neg Bool.false_ne_true]
  dsimp only
  rcases hp : buildPlan x.sortAdded x.sortDeleted (filterEligibleRecords records cfg.eligible)
      x.change.desired with _ | p
  · have hwork : x.work cfg.eligible = none := by
      rw [Request.work, if_neg hdesired, hrecords, hp]
      rfl
    exact ⟨rfl, Or.inl ⟨hwork, rfl, Outcome.text_ne_wouldApply .notEligible⟩⟩
  · rw [← hrecords] at hp
    have hwork := Request.work_of_plan hdesired hp
    dsimp only
    split_ifs at hwork ⊢ with hempty
    · exact ⟨rfl, Or.inl ⟨hwork, rfl, Outcome.text_ne_wouldApply .unchanged⟩⟩
    · exact ⟨rfl, Or.inr ⟨p, hwork, rfl, rfl⟩⟩

theorem Writer.reconcile_calls {w : Writer F} (henabled : w.cfg.enabled = true) (x : Request) :
    (w.reconcile x).calls =
      (x.work w.cfg.eligible).elim [] fun p => (w.execute x x.change.key p).calls := by
  unfold Writer.reconcile
  rw [henabled, Bool.not_true, if_neg Bool.false_ne_true]
  by_cases hdesired : x.change.desired = []
  · rw [if_pos hdesired, Request.work, if_pos hdesired]
    rfl
  rw [if_neg hdesired]
  rcases hsource : x.source x.change.key with err | records
  · rw [Request.work, if_neg hdesired, Request.records_of_error hsource]
    rfl
  have hrecords := Request.records_of_ok hsource
  dsimp only
  rcases hp : buildPlan x.sortAdded x.sortDeleted (filterEligibleRecords records w.cfg.eligible)
      x.change.desired with _ | p
  · rw [Request.work, if_neg hdesired, hrecords, hp]
    rfl
  · rw [← hrecords] at hp
    rw [Request.work_of_plan hdesired hp]
    dsimp only
    split_ifs
    · rfl
    · rfl

theorem Writer.new_dryRun (henabled : cfg.enabled = true) :
    (Writer.new cfg start : Writer F).cfg.dryRun =
      (cfg.dryRun || (cfg.enabled && cfg.eligible.entries = [])) := by
  rw [Writer.new, henabled]
  cases cfg.dryRun <;> rfl

/-- For an enabled configuration the simulation reports what a new writer does. -/
theorem simulate_agrees [LawfulFloat64 F] (henabled : cfg.enabled = true)
    (hclock : start ≤ x.now) (hfail : x.fail = fun _ => none) :
    let res := simulate cfg x.source x.change false x.sortAdded x.sortDeleted
    let w : Writer F := Writer.new cfg start
    res.dryRun = w.cfg.dryRun ∧
      (w.cfg.dryRun = false →
        List.Forall₂ (SimCall.Shows x.records) res.calls (w.reconcile x).calls) ∧
      (res.outcome ≠ wouldApply → res.calls = []) := by
  dsimp only
  obtain ⟨hdry, hcases⟩ := simulate_spec cfg x
  have hadm := @Writer.new_admits F _ _ start x.now cfg x.change.key hclock
  have hcalls := @Writer.reconcile_calls F _ (Writer.new cfg start) henabled x
  change _ = (x.work cfg.eligible).elim _ _ at hcalls
  rcases hcases with ⟨hwork, hsim, hout⟩ | ⟨p, hwork, hsim, hout⟩
  · rw [hwork] at hcalls
    rw [hsim, hcalls]
    exact ⟨hdry.trans (Writer.new_dryRun henabled).symm, fun _ => .nil, fun _ => rfl⟩
  · refine ⟨hdry.trans (Writer.new_dryRun henabled).symm, fun hlive => ?_, absurd hout⟩
    rw [hwork, Option.elim, Writer.execute_of_admits hlive hadm, hfail, madeCalls_succeed] at hcalls
    rw [hsim, hcalls]
    exact Plan.simCalls_shows fun d hd => Request.mem_records_of_work hwork hd

def announcedHost : Request := Writer.announced (.v4 0x08080808) second

theorem simulate_agrees_host :
    (simulate Writer.liveConfig announcedHost.source announcedHost.change false default
        default).calls =
      [⟨"update".toList, "host.a.".toList, "A".toList, "8.8.8.8".toList, "1.1.1.1".toList⟩] ∧
    List.Forall₂ (SimCall.Shows announcedHost.records)
      (simulate Writer.liveConfig announcedHost.source announcedHost.change false default
        default).calls
      ((Writer.new Writer.liveConfig 0 : Writer ℚ).reconcile announcedHost).calls :=
  ⟨by decide +kernel, (@simulate_agrees ℚ _ Writer.liveConfig announcedHost 0 _ rfl (by decide)
    rfl).2.1 (by decide)⟩

end SplitDNS.DDNS
