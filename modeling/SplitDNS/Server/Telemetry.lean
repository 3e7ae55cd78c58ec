import SplitDNS.Server.Serving

/-! # Replies and records

Every call hands one message to its writer, unless the limiter drops a query over
UDP, and then records at most one entry, with the code of that message. Whether
the writer could pack and send the message is not recorded. A local answer is the
one that the resolver gives for a snapshot and a view that were published while
the call was running.
-/

namespace SplitDNS.Server.Serving

open Go Go.Netip Dns Model Resolver

section Codes

variable (f : Setup) (r : Request)

theorem rcode_respond (m : Msg) : (respond f.trunc r m).rcode = m.rcode := by
  unfold respond
  cases isEdns0 r.msg with
  | none =>
    dsimp only
    cases r.tcp with
    | true => rfl
    | false => exact f.rcode_trunc _ _
  | some opt =>
    dsimp only
    cases r.tcp with
    | true => rfl
    | false => exact f.rcode_trunc _ _

theorem rcode_refuse (rcode : Rcode) : (refuse f.trunc r rcode).rcode = rcode :=
  rcode_respond f r _

theorem rcode_serveForwarded (m : Msg) : (serveForwarded f.trunc r m).rcode = m.rcode := by
  rw [serveForwarded, rcode_respond]
  unfold applyRebindFilter
  split_ifs <;> rfl

theorem rcode_written {res : Result} (hres : res.rcode = .serverFailure) (reply : Reply) :
    (reply.written f.trunc r).rcode = (replyResult res reply).rcode := by
  cases reply with
  | live m | fresh m | stale m => exact rcode_serveForwarded f r m
  | failed =>
    rw [Reply.written, rcode_refuse, replyResult, hres]

end Codes

/-- The messages that the call has handed to its writer. -/
def written (i : ℕ) (log : List Effect) : List Msg :=
  log.filterMap fun
    | .replied j m => if j = i then some m else none
    | _ => none

def recorded (i : ℕ) (log : List Effect) : List Qlog.Entry :=
  log.filterMap fun
    | .recorded j e => if j = i then some e else none
    | _ => none

section Effects

variable {i j : ℕ} {log : List Effect} {m : Msg} {label : Str} {es : List Qlog.Entry}

@[simp] theorem written_replied :
    written i (.replied j m :: log) = if j = i then m :: written i log else written i log := by
  unfold written
  split_ifs with h <;> simp [h]

@[simp] theorem written_solicited : written i (.solicited j label :: log) = written i log := rfl

@[simp] theorem written_recorded :
    written i (es.map (Effect.recorded j) ++ log) = written i log := by
  induction es with
  | nil => rfl
  | cons e es ih => exact ih

@[simp] theorem recorded_replied : recorded i (.replied j m :: log) = recorded i log := rfl

@[simp] theorem recorded_solicited : recorded i (.solicited j label :: log) = recorded i log := rfl

@[simp] theorem recorded_recorded : recorded i (es.map (Effect.recorded j) ++ log) =
    if j = i then es ++ recorded i log else recorded i log := by
  induction es with
  | nil => simp
  | cons e es ih =>
    split_ifs at ih ⊢ with h
    · simp [recorded, h]
    · simp [recorded, h]

end Effects

/-- What a call has handed over fits what it is going to record, or has recorded. -/
inductive Told (remote : NetAddr) (res : Result) (ms : List Msg) : Prop where
  | replied {m : Msg} (hms : ms = [m]) (hrcode : m.rcode = res.rcode)
  | dropped (hms : ms = []) (hdropped : res.decision = .dropped) (hudp : isTCP remote = false)

/-- What was written and recorded for a call, by where it is. -/
def Call.Tells (f : Setup) (i : ℕ) (log : List Effect) (c : Call) : Prop :=
  match c.phase with
  | .returning | .released => Told c.remote c.res (written i log) ∧ recorded i log = []
  | .done => Told c.remote c.res (written i log) ∧ ∃ now, recorded i log = records f now c
  | _ => c.res.rcode = .serverFailure ∧ written i log = [] ∧ recorded i log = []

section Moves

variable {f : Setup} {i j : ℕ} {s s' : Shared} {c c' : Call}

theorem effects_of_moves (h : Moves f i s c s' c') (hij : i ≠ j) :
    written j s'.log = written j s.log ∧ recorded j s'.log = recorded j s.log := by
  cases h with
  | overflow =>
    split_ifs <;> simp [Shared.write, Shared.logged, hij]
  | _ => simp [Shared.write, Shared.logged, hij]

theorem tells_write {log : List Effect} {m : Msg} {res : Result} (hwritten : written i log = [])
    (hrecorded : recorded i log = []) (hrcode : m.rcode = res.rcode) :
    Call.Tells f i (.replied i m :: log) { c with res, phase := .returning } :=
  ⟨.replied (by simp [hwritten]) hrcode, by simp [hrecorded]⟩

theorem tells_of_moves (htells : c.Tells f i s.log) (h : Moves f i s c s' c') :
    c'.Tells f i s'.log := by
  unfold Call.Tells at htells
  cases h with
  | refuse hphase =>
    rw [hphase] at htells
    exact tells_write htells.2.1 htells.2.2 (rcode_refuse f _ _)
  | overflow hphase =>
    rw [hphase] at htells
    split_ifs with htcp
    · refine tells_write htells.2.1 htells.2.2 ?_
      rw [rcode_refuse]
      exact htells.1.symm
    · exact ⟨.dropped htells.2.1 rfl (by simpa using htcp), htells.2.2⟩
  | reply hphase =>
    rw [hphase] at htells
    exact tells_write htells.2.1 htells.2.2 (rcode_respond f _ _)
  | stubbed m hphase =>
    rw [hphase] at htells
    exact tells_write htells.2.1 htells.2.2 (rcode_respond f _ _)
  | fail allow decision hphase =>
    have hopen : c.res.rcode = .serverFailure ∧ written i s.log = [] ∧ recorded i s.log = [] := by
      rcases hphase with ⟨snap, out, hphase⟩ | ⟨snap, hphase⟩
      · rwa [hphase] at htells
      · rwa [hphase] at htells
    refine tells_write hopen.2.1 hopen.2.2 ?_
    rw [rcode_refuse]
    exact hopen.1.symm
  | hit hphase =>
    rw [hphase] at htells
    exact tells_write htells.2.1 htells.2.2 (rcode_written f _ (by exact htells.1) _)
  | finish hphase =>
    rw [hphase] at htells
    exact tells_write htells.2.1 htells.2.2 (rcode_written f _ htells.1 _)
  | release hphase | pass hphase =>
    rw [hphase] at htells
    exact ⟨htells.1, htells.2⟩
  | record now hphase =>
    rw [hphase] at htells
    refine ⟨?_, now, by simp [htells.2, records, recordQuery]⟩
    simpa using htells.1
  | resolve hphase =>
    rcases hphase with hphase | hphase
    · rwa [hphase] at htells
    · rwa [hphase] at htells
  | enter hphase | load hphase | miss _ hphase | leave hphase | solicit hphase | degrade hphase
    | wake hphase | stub hphase | forward hphase | answer _ hphase =>
    rw [hphase] at htells
    exact htells

end Moves

namespace System

variable {f : Setup} {s s' : System} {cache : Option Anscache.Cache} {es : List Event} {i : ℕ}
  {c : Call}

/-- The calls that there are tell what they should, and the others have not begun. -/
structure Telling (f : Setup) (s : System) : Prop where
  calls : ∀ i (c : Call), s.calls[i]? = some c → c.Tells f i s.shared.log
  absent : ∀ i, s.calls.length ≤ i →
    written i s.shared.log = [] ∧ recorded i s.shared.log = []

theorem Telling.step (h : Telling f s) (hs : Steps f s s') : Telling f s' := by
  cases hs with
  | query remote label req start =>
    refine ⟨fun i c hc => ?_, fun i hi => ?_⟩
    · rcases getElem?_concat_eq_some hc with hc | ⟨rfl, rfl⟩
      · exact h.calls i c hc
      · exact ⟨rfl, h.absent _ le_rfl⟩
    · rw [List.length_append] at hi
      exact h.absent i (by omega)
  | control => exact ⟨h.calls, h.absent⟩
  | @act j c c' sh hc hmoves =>
    refine ⟨fun i c₁ hc₁ => ?_, fun i hi => ?_⟩
    · rcases getElem?_set_eq_some hc₁ with ⟨rfl, rfl⟩ | ⟨hne, hc₁⟩
      · exact tells_of_moves (h.calls j c hc) hmoves
      · obtain ⟨hwritten, hrecorded⟩ := effects_of_moves hmoves hne
        have htells := h.calls i c₁ hc₁
        unfold Call.Tells at htells ⊢
        rwa [hwritten, hrecorded]
    · rw [List.length_set] at hi
      have hne : j ≠ i := by
        have := (List.getElem?_eq_some_iff.mp hc).1
        omega
      obtain ⟨hwritten, hrecorded⟩ := effects_of_moves hmoves hne
      rw [hwritten, hrecorded]
      exact h.absent i hi

theorem telling_of_run (h : Runs.run (step f) (init cache) es = some s) : Telling f s := by
  refine Runs.inv_of_steps ⟨?_, fun _ _ => ⟨rfl, rfl⟩⟩
    (fun _ _ _ hi hs => hi.step (steps_of_step hs)) h
  simp [init]

theorem length_written (h : Runs.run (step f) (init cache) es = some s)
    (hc : s.calls[i]? = some c) : (written i s.shared.log).length ≤ 1 := by
  have htells := (telling_of_run h).calls i c hc
  have htold {remote : NetAddr} {res : Result} {ms : List Msg} (ht : Told remote res ms) :
      ms.length ≤ 1 := by
    cases ht with
    | replied hms => simp [hms]
    | dropped hms => simp [hms]
  unfold Call.Tells at htells
  split at htells
  · exact htold htells.1
  · exact htold htells.1
  · exact htold htells.1
  · simp [htells.2.1]

theorem mem_records {now : Time} {e : Qlog.Entry} (he : e ∈ records f now c) :
    ∃ q, c.req.question = [q] ∧ e = recordQuery f now c q := by
  unfold records at he
  split at he
  · rename_i q hq
    split_ifs at he
    · exact ⟨q, hq, by simpa using he⟩
    · simp at he
  · simp at he

theorem length_records (f : Setup) (now : Time) (c : Call) : (records f now c).length =
    if f.queryLog = true ∧ c.req.question.length = 1 then 1 else 0 := by
  unfold records
  split
  · rename_i q hq
    simp only [hq, List.length_singleton, and_true]
    split_ifs <;> rfl
  · rename_i hq
    rw [if_neg fun h => ?_, List.length_nil]
    obtain ⟨q, hq'⟩ := List.length_eq_one_iff.mp h.2
    exact hq q hq'

/-- In every interleaving a call hands at most one message to its writer, and when it has returned
it has handed over one, unless the limiter dropped its query over UDP. It has then recorded exactly
one entry, if queries are recorded and this one had one question: of its client and name, with the
code of that message, or as dropped if there was none. -/
theorem recorded_as_replied (h : Runs.run (step f) (init cache) es = some s)
    (hc : s.calls[i]? = some c) :
    (written i s.shared.log).length ≤ 1 ∧
    (c.phase = .done →
      (written i s.shared.log = [] → c.res.decision = .dropped ∧ isTCP c.remote = false) ∧
      (recorded i s.shared.log).length =
        (if f.queryLog = true ∧ c.req.question.length = 1 then 1 else 0) ∧
      ∀ e ∈ recorded i s.shared.log,
        e.client = clientIP c.remote ∧ (∃ q, c.req.question = [q] ∧ e.name = q.name) ∧
        (∀ m ∈ written i s.shared.log, e.rcode = f.rcodeToString m.rcode) ∧
        (written i s.shared.log = [] → e.decision = .dropped)) := by
  refine ⟨length_written h hc, fun hdone => ?_⟩
  have htells := (telling_of_run h).calls i c hc
  unfold Call.Tells at htells
  rw [hdone] at htells
  obtain ⟨htold, now, hrecorded⟩ := htells
  have hdropped : written i s.shared.log = [] →
      c.res.decision = .dropped ∧ isTCP c.remote = false := by
    intro hnone
    cases htold with
    | replied hms => simp [hnone] at hms
    | dropped _ hdropped hudp => exact ⟨hdropped, hudp⟩
  refine ⟨hdropped, by rw [hrecorded, length_records], fun e he => ?_⟩
  rw [hrecorded] at he
  obtain ⟨q, hq, rfl⟩ := mem_records he
  refine ⟨rfl, ⟨q, hq, rfl⟩, fun m hm => ?_, fun hnone => (hdropped hnone).1⟩
  cases htold with
  | replied hms hrcode =>
    rw [hms, List.mem_singleton] at hm
    rw [hm, hrcode]
    rfl
  | dropped hms => simp [hms] at hm

/-- A query for a host that nobody announced, from its arrival to its record. -/
def unknownHost : List Event :=
  .query (.udp [10, 0, 0, 1]) none (ask "nas.local.".toList typeA) 0 :: List.replicate 6 (.work 0 7)

/-- The denial of the host is what is recorded. -/
theorem recorded_as_replied_unknownHost :
    ∃ s e, Runs.run (step oneAtATime) (init none) unknownHost = some s ∧
      recorded 0 s.shared.log = [e] ∧ e.name = "nas.local.".toList ∧
      e.rcode = "NXDOMAIN".toList := by
  obtain ⟨s, hs, hmap⟩ := Option.map_eq_some_iff.mp (show
    (Runs.run (step oneAtATime) (init none) unknownHost).map
      (fun s => (s.calls[0]?.map fun c => (c.req, match c.phase with | .done => true | _ => false),
        (written 0 s.shared.log).map Msg.rcode)) =
        some (some (ask "nas.local.".toList typeA, true), [.nameError]) by decide +kernel)
  obtain ⟨hcall, hcodes⟩ := Prod.mk.inj hmap
  obtain ⟨c, hc, hparts⟩ := Option.map_eq_some_iff.mp hcall
  obtain ⟨hreq, hphase⟩ := Prod.mk.inj hparts
  obtain ⟨m, hm, hrcode⟩ := List.map_eq_singleton_iff.mp hcodes
  have hdone : c.phase = .done := by
    cases hp : c.phase <;> simp_all
  obtain ⟨-, hlength, hentries⟩ := (recorded_as_replied hs hc).2 hdone
  obtain ⟨e, he⟩ := List.length_eq_one_iff.mp (hlength.trans (if_pos ⟨rfl, by rw [hreq]; rfl⟩))
  obtain ⟨-, ⟨q, hq, hname⟩, hcode, -⟩ := hentries e (by simp [he])
  refine ⟨s, e, hs, he, ?_, ?_⟩
  · rw [hreq, ask, List.cons.injEq] at hq
    rw [hname, ← hq.1]
  · rw [hcode m (by simp [hm]), hrcode]
    rfl

section Current

variable {snap : Snapshot} {view : MDNSView}

/-- The snapshot was the published one at a moment of the run at which the call was there. -/
def Loaded (f : Setup) (cache : Option Anscache.Cache) (es : List Event) (i : ℕ)
    (snap : Snapshot) : Prop :=
  ∃ pre s, pre <+: es ∧ Runs.run (step f) (init cache) pre = some s ∧ i < s.calls.length ∧
    s.shared.snapshot.getD {} = snap

/-- The view was the published one at a moment of the run, and the snapshot at one before, when
the call was there. -/
def Read (f : Setup) (cache : Option Anscache.Cache) (es : List Event) (i : ℕ)
    (snap : Snapshot) (view : MDNSView) : Prop :=
  ∃ pre s, pre <+: es ∧ Runs.run (step f) (init cache) pre = some s ∧
    s.shared.view.getD {} = view ∧ Loaded f cache pre i snap

def Reads (f : Setup) (cache : Option Anscache.Cache) (es : List Event) (i : ℕ)
    (log : List Effect) (c : Call) : Prop :=
  match c.phase with
  | .viewing snap | .missed snap _ | .asking snap _ | .waiting snap | .waited snap =>
    Loaded f cache es i snap
  | .acting snap out =>
    ∃ view, Read f cache es i snap view ∧ out = resolve f.newRR snap view c.req
  | .returning | .released | .done => c.res.decision = .localAnswer → ∃ snap view m,
    Read f cache es i snap view ∧ (resolve f.newRR snap view c.req).msg = some m ∧
      respond f.trunc (c.request snap.allowSuffix) m ∈ written i log
  | _ => True

variable {log log' : List Effect} {es' : List Event}

theorem Loaded.mono (h : Loaded f cache es i snap) (hes : es <+: es') :
    Loaded f cache es' i snap := by
  obtain ⟨pre, s, hpre, hrest⟩ := h
  exact ⟨pre, s, hpre.trans hes, hrest⟩

theorem Read.mono (h : Read f cache es i snap view) (hes : es <+: es') :
    Read f cache es' i snap view := by
  obtain ⟨pre, s, hpre, hrest⟩ := h
  exact ⟨pre, s, hpre.trans hes, hrest⟩

theorem Reads.mono (h : Reads f cache es i log c) (hes : es <+: es')
    (hlog : written i log' = written i log) : Reads f cache es' i log' c := by
  unfold Reads at h ⊢
  rw [hlog]
  cases hphase : c.phase with
  | viewing | missed | asking | waiting | waited =>
    rw [hphase] at h
    exact h.mono hes
  | acting =>
    rw [hphase] at h
    obtain ⟨view, hread, hout⟩ := h
    exact ⟨view, hread.mono hes, hout⟩
  | returning | released | done =>
    rw [hphase] at h
    intro hlocal
    obtain ⟨snap, view, m, hread, hreply⟩ := h hlocal
    exact ⟨snap, view, m, hread.mono hes, hreply⟩
  | arrived | admitted | stubbing | upstream | answered => trivial

theorem Reads.of_local (h : Reads f cache es i log c) (hcourse : c.OnCourse)
    (hlocal : c.res.decision = .localAnswer) :
    ∃ snap view m, Read f cache es i snap view ∧ (resolve f.newRR snap view c.req).msg = some m ∧
      respond f.trunc (c.request snap.allowSuffix) m ∈ written i log := by
  unfold Reads at h
  unfold Call.OnCourse at hcourse
  cases hphase : c.phase with
  | returning | released | done =>
    rw [hphase] at h
    exact h hlocal
  | _ => simp [hphase, hlocal] at hcourse

theorem reads_of_other {res : Result} (h : res.decision ≠ .localAnswer) :
    Reads f cache es i log { c with res, phase := .returning } :=
  fun hlocal => absurd hlocal h

theorem decision_replyResult {res : Result} (h : res.decision ≠ .localAnswer) (reply : Reply) :
    (replyResult res reply).decision ≠ .localAnswer := by
  cases reply with
  | live | failed => exact h
  | fresh | stale => simp [replyResult]

theorem reads_of_moves {c' : Call} {sh : Shared}
    (hrun : Runs.run (step f) (init cache) es = some s) (hc : s.calls[i]? = some c)
    (h : Reads f cache es i s.shared.log c) (hmoves : Moves f i s.shared c sh c') :
    Reads f cache es i sh.log c' := by
  have hlt := (List.getElem?_eq_some_iff.mp hc).1
  have hcourse := onCourse_of_run hrun c (List.mem_of_getElem? hc)
  unfold Call.OnCourse at hcourse
  unfold Reads at h
  cases hmoves with
  | load hphase => exact ⟨es, s, List.prefix_rfl, hrun, hlt, rfl⟩
  | resolve hphase =>
    rcases hphase with hphase | hphase
    · rw [hphase] at h
      exact ⟨_, ⟨es, s, List.prefix_rfl, hrun, rfl, h⟩, rfl⟩
    · rw [hphase] at h
      exact ⟨_, ⟨es, s, List.prefix_rfl, hrun, rfl, h⟩, rfl⟩
  | reply hphase hmsg =>
    rw [hphase] at h
    obtain ⟨view, hread, rfl⟩ := h
    refine fun _ => ⟨_, view, _, hread, hmsg, ?_⟩
    rw [Shared.write, Shared.logged, written_replied, if_pos rfl]
    exact List.mem_cons_self
  | refuse | overflow => exact reads_of_other (by simp)
  | stubbed m hphase =>
    rw [hphase] at hcourse
    exact reads_of_other (by simp [hcourse])
  | fail allow decision hphase hdecision =>
    have hopen : c.res.decision ≠ .localAnswer := by
      rcases hphase with ⟨snap, out, hphase⟩ | ⟨snap, hphase⟩ <;> simp_all
    refine reads_of_other ?_
    rcases hdecision with rfl | ⟨-, rfl | rfl⟩
    · exact hopen
    · simp
    · simp
  | hit hphase => exact reads_of_other (decision_replyResult (by simp) _)
  | finish hphase =>
    rw [hphase] at hcourse
    exact reads_of_other (decision_replyResult (by simp [hcourse]) _)
  | release hphase | pass hphase =>
    rw [hphase] at h
    exact h
  | record now hphase =>
    rw [hphase] at h
    intro hlocal
    obtain ⟨snap, view, m, hread, hmsg, hmem⟩ := h hlocal
    exact ⟨snap, view, m, hread, hmsg, by rwa [written_recorded]⟩
  | enter | stub | forward | answer => trivial
  | miss _ hphase | leave hphase | solicit hphase | degrade hphase | wake hphase =>
    rw [hphase] at h
    exact h

structure Reading (f : Setup) (cache : Option Anscache.Cache) (es : List Event) (s : System) :
    Prop where
  run : Runs.run (step f) (init cache) es = some s
  calls : ∀ i (c : Call), s.calls[i]? = some c → Reads f cache es i s.shared.log c

theorem Reading.step {e : Event} (h : Reading f cache es s) (hs : s.step f e = some s') :
    Reading f cache (es ++ [e]) s' := by
  have hes : es <+: es ++ [e] := List.prefix_append _ _
  refine ⟨by rw [Runs.run_concat, h.run]; exact hs, fun i c hc => ?_⟩
  have hsteps := steps_of_step hs
  cases hsteps with
  | query remote label req start =>
    rcases getElem?_concat_eq_some hc with hc | ⟨rfl, rfl⟩
    · exact (h.calls i c hc).mono hes rfl
    · trivial
  | control => exact (h.calls i c hc).mono hes rfl
  | @act j c₁ c' sh hc₁ hmoves =>
    rcases getElem?_set_eq_some hc with ⟨rfl, rfl⟩ | ⟨hne, hc⟩
    · exact (reads_of_moves h.run hc₁ (h.calls j c₁ hc₁) hmoves).mono hes rfl
    · exact (h.calls i c hc).mono hes (effects_of_moves hmoves hne).1

/-- In every interleaving, a local answer is the one that the resolver gives for a snapshot that
was published when the call was already there, and a view that was published then or later, and it
is all that the call writes. -/
theorem local_reply_current (h : Runs.run (step f) (init cache) es = some s)
    (hc : s.calls[i]? = some c) (hlocal : c.res.decision = .localAnswer) :
    ∃ snap view m, Read f cache es i snap view ∧
      (resolve f.newRR snap view c.req).msg = some m ∧
      written i s.shared.log = [respond f.trunc (c.request snap.allowSuffix) m] := by
  have hreading : Reading f cache es s :=
    @Runs.inv_of_run _ _ _ _ _ _ (Reading f cache) (fun _ _ _ => True) ⟨rfl, by simp [init]⟩
      (fun _ _ _ _ hi _ hs => hi.step hs) (fun _ _ _ _ _ _ => trivial) h
  have hreads := hreading.calls i c hc
  have hone := length_written h hc
  obtain ⟨snap, view, m, hread, hmsg, hmem⟩ := hreads.of_local
    (onCourse_of_run h c (List.mem_of_getElem? hc)) hlocal
  refine ⟨snap, view, m, hread, hmsg, ?_⟩
  obtain ⟨m', hm'⟩ := List.length_eq_one_iff.mp (le_antisymm hone (List.length_pos_of_mem hmem))
  rw [hm', List.mem_singleton] at hmem
  rw [hm', hmem]

/-- The denial of the host is that of the empty view. -/
theorem local_reply_current_unknownHost :
    ∃ s snap view m, Runs.run (step oneAtATime) (init none) unknownHost = some s ∧
      Read oneAtATime none unknownHost 0 snap view ∧
      (resolve readLine snap view (ask "nas.local.".toList typeA)).msg = some m ∧
      (written 0 s.shared.log).map Msg.rcode = [m.rcode] := by
  obtain ⟨s, hs, hmap⟩ := Option.map_eq_some_iff.mp (show
    (Runs.run (step oneAtATime) (init none) unknownHost).map
      (fun s => s.calls[0]?.map fun c => (c.req, c.res.decision)) =
        some (some (ask "nas.local.".toList typeA, .localAnswer)) by decide +kernel)
  obtain ⟨c, hc, hparts⟩ := Option.map_eq_some_iff.mp hmap
  obtain ⟨hreq, hlocal⟩ := Prod.mk.inj hparts
  obtain ⟨snap, view, m, hread, hmsg, hwritten⟩ := local_reply_current hs hc hlocal
  refine ⟨s, snap, view, m, hs, hread, hreq ▸ hmsg, ?_⟩
  rw [hwritten, List.map_singleton, rcode_respond]

end Current

end System

end SplitDNS.Server.Serving
