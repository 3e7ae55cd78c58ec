import SplitDNS.Supervisor

/-! # The watchdog

The supervisor with all its workers and the watchdog, over the age of the
published snapshot. The watchdog forces the builder to restart when the snapshot
is too old, and withholds its keepalive only when that has not helped.
-/

namespace SplitDNS.Supervisor

open Go

structure Options where
  intervals : Intervals
  hardCeiling : Duration
  tripCeiling : Duration
  builderName : Str

/-- The supervisor at work. `forces` and `pings` are the times at which the watchdog asked for a
restart and sent a keepalive, the latest first. -/
structure System where
  now : Time
  workers : List (Worker × State)
  lastForce : Time := zeroTime
  builtAt : Option Time := none
  confirmedAt : Time := zeroTime
  forces : List Time := []
  pings : List Time := []

/-- What happens to the supervisor: time passes, the context is cancelled, a worker or its loop
takes a step, somebody asks for a restart, the mirror publishes or confirms a snapshot, or the
watchdog ticks, with the answer of the liveness probe and of the notification. -/
inductive SystemEvent where
  | elapse (d : Duration)
  | cancel
  | worker (i : ℕ) (e : Event)
  | forceRestart (name : Str)
  | publish (builtAt : Time)
  | confirm
  | watchdogTick (live : Bool)

/-- The worker that a name stands for: the one registered last. -/
def byName (workers : List (Worker × State)) (name : Str) : Option ℕ :=
  (List.range workers.length).reverse.find? fun i => workers[i]?.any fun w => w.1.name = name

/-! ## Requests to restart -/

/-- The time that passes in a step. -/
def Event.lasts : Event → Duration
  | .elapse d => d
  | _ => 0

namespace State

variable {t : Intervals} {w : Worker} {st st' : State} {e : Event} {f : Time}

/-- A request made at the time is in the worker's channel, or a run of the worker was cancelled
since then, or everything is shut down. -/
def AskedAt (f : Time) (st : State) : Prop :=
  st.forceCh = true ∨ (∃ g ∈ st.runs, ∃ c ∈ g.cancelledAt, f ≤ c) ∨ st.ctxDone = true

/-- A run that is monitored is cancelled only with everything else. -/
def Watching (st : State) : Prop :=
  ∀ next, st.pc = .monitor next → st.ctxDone = true ∨ ∃ g ∈ st.runs.head?, g.cancelledAt = none

theorem exists_cancelled_modify {runs : List Goroutine} {i : ℕ} {h : Goroutine → Goroutine}
    (hh : ∀ g, ∀ c ∈ g.cancelledAt, c ∈ (h g).cancelledAt)
    (hg : ∃ g ∈ runs, ∃ c ∈ g.cancelledAt, f ≤ c) :
    ∃ g ∈ runs.modify i h, ∃ c ∈ g.cancelledAt, f ≤ c := by
  obtain ⟨g, hg, c, hc, hf⟩ := hg
  obtain ⟨j, hj⟩ := List.mem_iff_getElem?.mp hg
  by_cases hij : i = j
  · exact ⟨h g, List.mem_iff_getElem?.mpr ⟨j, by simp [hij, hj]⟩, c, hh g c hc, hf⟩
  · exact ⟨g, List.mem_iff_getElem?.mpr ⟨j, by simp [hij, hj]⟩, c, hc, hf⟩

theorem Watching.step (h : st.Watching) (hs : Supervisor.step t w st e = some st') :
    st'.Watching := by
  cases moves_of_step hs with
  | elapse | progress | forceRestart => exact h
  | cancel => exact fun _ _ => Or.inl rfl
  | exit i =>
    intro next hpc
    refine (h next hpc).imp_right ?_
    rintro ⟨g, hg, hnone⟩
    rw [head?_modify]
    split_ifs
    · exact ⟨g.exit, Option.mem_map_of_mem _ hg, hnone⟩
    · exact ⟨g, hg, hnone⟩
  | start => exact fun _ _ => Or.inr ⟨_, rfl, rfl⟩
  | leave c next oc | force next =>
    intro next hpc
    simp only [State.leave] at hpc
    split_ifs at hpc
  | tick next hpc => exact fun _ _ => h next hpc
  | exited | abandon | settle | wake | stop =>
    intro next hpc
    cases hpc

/-- A request is kept until a run is cancelled for it. -/
theorem AskedAt.step (h : st.AskedAt f) (hw : st.Watching) (hf : f ≤ st.now)
    (hs : Supervisor.step t w st e = some st') : st'.AskedAt f := by
  cases moves_of_step hs with
  | elapse | progress | tick | exited | abandon | settle | wake | stop => exact h
  | cancel => exact Or.inr (Or.inr rfl)
  | forceRestart => exact Or.inl rfl
  | exit i => exact h.imp_right (Or.imp_left (exists_cancelled_modify fun _ _ hc => hc))
  | start =>
    refine h.imp_right (Or.imp_left ?_)
    exact fun ⟨g, hg, hc⟩ => ⟨g, List.mem_cons_of_mem _ hg, hc⟩
  | leave =>
    exact h.imp_right
      (Or.imp_left (exists_cancelled_modify (Goroutine.ages_cancel t st.now).cancelled))
  | force next hpc =>
    right
    rcases hw next hpc with hctx | ⟨g, hg, hnone⟩
    · exact Or.inr hctx
    · refine Or.inl ⟨g.cancel st.now, ?_, st.now, ?_, hf⟩
      · refine List.mem_of_head? ?_
        simp only [State.leave, head?_modify, if_true]
        exact Option.mem_map_of_mem _ hg
      · simp [Goroutine.cancel, hnone]

theorem now_of_step (hs : Supervisor.step t w st e = some st') :
    0 ≤ e.lasts ∧ st'.now = st.now + e.lasts := by
  cases moves_of_step hs with
  | elapse d hd => exact ⟨hd, rfl⟩
  | _ => exact ⟨le_rfl, (add_zero st.now).symm⟩

theorem askedAt_of_run {es : List Event} (hrun : Runs.run (Supervisor.step t w) st es = some st')
    (hf : f ≤ st.now) (hw : st.Watching) (h : st.AskedAt f) : st'.AskedAt f := by
  refine (@Runs.inv_of_steps _ _ _ _ _ _ (fun st => f ≤ st.now ∧ st.Watching ∧ st.AskedAt f)
    ⟨hf, hw, h⟩ ?_ hrun).2.2
  rintro st e st' ⟨hf, hw, h⟩ hs
  obtain ⟨hd, hnow⟩ := now_of_step hs
  exact ⟨by linarith, hw.step hs, h.step hw hf hs⟩

end State

namespace System

def init (workers : List Worker) (now : Time) : System :=
  { now, workers := workers.map fun w => (w, State.init w now) }

def forceRestart (s : System) (name : Str) : System :=
  match byName s.workers name with
  | none => s
  | some i => { s with workers := s.workers.modify i fun w => (w.1, { w.2 with forceCh := true }) }

/-- The time since the mirror was last known to be current. -/
def snapshotAge (s : System) : Duration :=
  match s.builtAt with
  | none => hour
  | some builtAt => s.now - if builtAt < s.confirmedAt then s.confirmedAt else builtAt

/-- The first stage: a builder that seems to be stuck is restarted, but not over and over. -/
def escalate (o : Options) (s : System) : System :=
  if 0 < o.hardCeiling ∧ o.hardCeiling < s.snapshotAge ∧ o.builderName ≠ [] ∧
      o.hardCeiling < s.now - s.lastForce then
    { s.forceRestart o.builderName with lastForce := s.now, forces := s.now :: s.forces }
  else s

/-- The second stage: the keepalive is withheld from a process that cannot publish. -/
def tripped (o : Options) (s : System) : Bool := 0 < o.tripCeiling ∧ o.tripCeiling < s.snapshotAge

def watchdogTick (o : Options) (s : System) (live : Bool) : System :=
  let s' := s.escalate o
  if live && !s.tripped o then { s' with pings := s.now :: s'.pings } else s'

/-- A step of a worker does not reach for the clock, the context, or another's channel. -/
def ownStep : Event → Bool
  | .progress _ | .exit _ _ | .loop _ => true
  | .elapse _ | .cancel | .forceRestart => false

def all (t : Intervals) (workers : List (Worker × State)) (e : Event) : List (Worker × State) :=
  workers.map fun w => (w.1, (Supervisor.step t w.1 w.2 e).getD w.2)

def step (o : Options) (s : System) : SystemEvent → Option System
  | .elapse d =>
    if 0 ≤ d then
      some { s with now := s.now + d, workers := all o.intervals s.workers (.elapse d) }
    else none
  | .cancel => some { s with workers := all o.intervals s.workers .cancel }
  | .worker i e =>
    match s.workers[i]? with
    | none => none
    | some w =>
      if ownStep e then
        (Supervisor.step o.intervals w.1 w.2 e).map fun st =>
          { s with workers := s.workers.set i (w.1, st) }
      else none
  | .forceRestart name => some (s.forceRestart name)
  | .publish builtAt => some { s with builtAt := some builtAt }
  | .confirm => some { s with confirmedAt := s.now }
  | .watchdogTick live => some (s.watchdogTick o live)

theorem forceRestart_eq (s : System) (name : Str) :
    ∃ workers, s.forceRestart name = { s with workers } := by
  unfold forceRestart
  split
  · exact ⟨s.workers, rfl⟩
  · exact ⟨_, rfl⟩

/-- What a step can do. -/
inductive Steps (o : Options) (s : System) : System → Prop
  | elapse (d : Duration) (hd : 0 ≤ d) :
    Steps o s { s with now := s.now + d, workers := all o.intervals s.workers (.elapse d) }
  | cancel : Steps o s { s with workers := all o.intervals s.workers .cancel }
  | worker {i : ℕ} {w : Worker} {st st' : State} {e : Event} (hw : s.workers[i]? = some (w, st))
      (hown : ownStep e = true) (hst : Supervisor.step o.intervals w st e = some st') :
    Steps o s { s with workers := s.workers.set i (w, st') }
  | forceRestart (name : Str) : Steps o s (s.forceRestart name)
  | publish (builtAt : Time) : Steps o s { s with builtAt := some builtAt }
  | confirm : Steps o s { s with confirmedAt := s.now }
  | watchdogTick (live : Bool) : Steps o s (s.watchdogTick o live)

theorem steps_of_step {o : Options} {s s' : System} {e : SystemEvent}
    (h : step o s e = some s') : Steps o s s' := by
  cases e with
  | elapse d =>
    obtain ⟨hd, rfl⟩ : 0 ≤ d ∧ _ = s' := by
      simpa only [step, Option.ite_none_right_eq_some, Option.some.injEq] using h
    exact .elapse d hd
  | worker i e =>
    simp only [step] at h
    split at h
    · cases h
    · rename_i hw
      split_ifs at h with hown
      obtain ⟨st', hst', rfl⟩ := Option.map_eq_some_iff.mp h
      exact .worker hw hown hst'
  | cancel | forceRestart | publish | confirm | watchdogTick =>
    cases h
    constructor

/-- A system takes the worker from one state to the other in steps of its own loop, by the same
clock. -/
def Lives (t : Intervals) (i : ℕ) (s s' : System) : Prop :=
  ∀ w st, s.workers[i]? = some (w, st) → ∃ st' es, s'.workers[i]? = some (w, st') ∧
    Runs.run (Supervisor.step t w) st es = some st' ∧ st'.now - st.now = s'.now - s.now

theorem Lives.refl (t : Intervals) (i : ℕ) (s : System) : Lives t i s s :=
  fun _ st h => ⟨st, [], h, rfl, by simp⟩

theorem Lives.trans {t : Intervals} {i : ℕ} {a b c : System} (h : Lives t i a b)
    (h' : Lives t i b c) : Lives t i a c := by
  intro w st hst
  obtain ⟨st₁, es₁, hst₁, hrun₁, hnow₁⟩ := h w st hst
  obtain ⟨st₂, es₂, hst₂, hrun₂, hnow₂⟩ := h' w st₁ hst₁
  exact ⟨st₂, es₁ ++ es₂, hst₂, Runs.run_append_eq_some.mpr ⟨st₁, hrun₁, hrun₂⟩, by linarith⟩

theorem lives_of_workers_eq {t : Intervals} {i : ℕ} {s s' : System} (h : s'.workers = s.workers)
    (hnow : s'.now = s.now) : Lives t i s s' :=
  fun _ st hst => ⟨st, [], h ▸ hst, rfl, by simp [hnow]⟩

theorem lives_all (t : Intervals) (i : ℕ) {s s' : System} {e : Event}
    (he : ∀ w st, (Supervisor.step t w st e).isSome) (h : s'.workers = all t s.workers e)
    (hnow : s'.now = s.now + e.lasts) : Lives t i s s' := by
  intro w st hst
  obtain ⟨st', hst'⟩ := Option.isSome_iff_exists.mp (he w st)
  refine ⟨st', [e], ?_, by simp [Runs.run, hst'], ?_⟩
  · simp [h, all, hst, hst']
  · linarith [(State.now_of_step hst').2]

theorem lives_forceRestart (t : Intervals) (i : ℕ) (s : System) (name : Str) :
    Lives t i s (s.forceRestart name) := by
  unfold forceRestart
  split
  · exact Lives.refl t i s
  · rename_i j hj
    intro w st hst
    simp only [List.getElem?_modify, hst]
    by_cases hij : j = i
    · exact ⟨_, [.forceRestart], by simp [hij], rfl, by simp⟩
    · exact ⟨st, [], by simp [hij], rfl, by simp⟩

@[simp]
theorem watchdogTick_workers (o : Options) (s : System) (live : Bool) :
    (s.watchdogTick o live).workers = (s.escalate o).workers := by
  unfold watchdogTick
  split <;> rfl

@[simp]
theorem watchdogTick_forces (o : Options) (s : System) (live : Bool) :
    (s.watchdogTick o live).forces = (s.escalate o).forces := by
  unfold watchdogTick
  split <;> rfl

theorem watchdogTick_now (o : Options) (s : System) (live : Bool) :
    (s.watchdogTick o live).now = (s.escalate o).now := by
  unfold watchdogTick
  split <;> rfl

theorem lives_of_step {o : Options} {s s' : System} {e : SystemEvent} (i : ℕ)
    (h : step o s e = some s') : Lives o.intervals i s s' := by
  cases steps_of_step h with
  | elapse d hd =>
    exact lives_all o.intervals i (fun w st => by simp [Supervisor.step, hd]) rfl rfl
  | cancel => exact lives_all o.intervals i (fun w st => rfl) rfl (add_zero s.now).symm
  | @worker j w st st' e hw hown hst' =>
    intro w' st₀ hst
    by_cases hij : j = i
    · subst hij
      obtain ⟨rfl, rfl⟩ := Prod.mk.inj (Option.some.inj (hw.symm.trans hst))
      have hlt := (List.getElem?_eq_some_iff.mp hst).1
      have hlasts : e.lasts = 0 := by
        cases e <;> first | rfl | cases hown
      have hnow := (State.now_of_step hst').2
      rw [hlasts] at hnow
      exact ⟨st', [e], by simp [hlt], by simp [Runs.run, hst'], by simp [hnow]⟩
    · exact ⟨st₀, [], by simpa [List.getElem?_set, hij] using hst, rfl, by simp⟩
  | forceRestart name => exact lives_forceRestart o.intervals i s name
  | publish | confirm => exact lives_of_workers_eq rfl rfl
  | watchdogTick live =>
    refine Lives.trans ?_
      (lives_of_workers_eq (watchdogTick_workers o s live) (watchdogTick_now o s live))
    unfold escalate
    split
    · exact (lives_forceRestart o.intervals i s o.builderName).trans (lives_of_workers_eq rfl rfl)
    · exact Lives.refl o.intervals i s

theorem lives_of_run {o : Options} {s s' : System} {es : List SystemEvent} (i : ℕ)
    (h : Runs.run (step o) s es = some s') : Lives o.intervals i s s' :=
  @Runs.rel_of_run _ _ _ _ _ _ (fun _ => True) (Lives o.intervals i) (Lives.refl o.intervals i)
    (fun _ _ _ => Lives.trans) trivial (fun _ _ _ _ _ => trivial)
    (fun _ _ _ _ hs => lives_of_step i hs) h

theorem map_fst_forceRestart (s : System) (name : Str) :
    (s.forceRestart name).workers.map Prod.fst = s.workers.map Prod.fst := by
  unfold forceRestart
  split
  · rfl
  · apply map_modify_eq
    exact fun _ => rfl

/-- The workers are those that were registered. -/
theorem map_fst_of_step {o : Options} {s s' : System} {e : SystemEvent}
    (h : step o s e = some s') : s'.workers.map Prod.fst = s.workers.map Prod.fst := by
  cases steps_of_step h with
  | elapse | cancel => simp [all]
  | @worker i w st st' e hw =>
    obtain ⟨hlt, hget⟩ := List.getElem?_eq_some_iff.mp hw
    have hlt' : i < (s.workers.map Prod.fst).length := by simpa using hlt
    have hfst : w = (s.workers.map Prod.fst)[i] := by simp [hget]
    simp only [List.map_set]
    rw [hfst, List.set_getElem_self]
  | forceRestart name => exact map_fst_forceRestart s name
  | publish | confirm => rfl
  | watchdogTick live =>
    rw [watchdogTick_workers]
    unfold escalate
    split
    · exact map_fst_forceRestart s o.builderName
    · rfl

theorem map_fst_of_run {o : Options} {s₀ s : System} {es : List SystemEvent}
    (h : Runs.run (step o) s₀ es = some s) : s.workers.map Prod.fst = s₀.workers.map Prod.fst :=
  @Runs.inv_of_steps _ _ _ _ _ _ (fun s => s.workers.map Prod.fst = s₀.workers.map Prod.fst) rfl
    (fun _ _ _ hi hs => (map_fst_of_step hs).trans hi) h

theorem exists_run_of_run {o : Options} {s : System} {ws : List Worker} {now : Time}
    {es : List SystemEvent} (h : Runs.run (step o) (init ws now) es = some s) {w : Worker}
    {st : State} (hst : (w, st) ∈ s.workers) :
    ∃ es, Runs.run (Supervisor.step o.intervals w) (State.init w now) es = some st := by
  have hlength : s.workers.length = (init ws now).workers.length := by
    simpa using congrArg List.length (map_fst_of_run h)
  obtain ⟨i, hi⟩ := List.mem_iff_getElem?.mp hst
  have hlt : i < (init ws now).workers.length := hlength ▸ (List.getElem?_eq_some_iff.mp hi).1
  obtain ⟨w₀, hw₀⟩ : ∃ w₀, (init ws now).workers[i]? = some (w₀, State.init w₀ now) := by
    simp only [init, List.length_map] at hlt
    exact ⟨ws[i], by simp [init, hlt]⟩
  obtain ⟨st', own, hst', hown, -⟩ := lives_of_run i h w₀ _ hw₀
  obtain ⟨rfl, rfl⟩ : w₀ = w ∧ st' = st := by simpa [hi, eq_comm] using hst'
  exact ⟨own, hown⟩

/-- In every run of the supervisor, whatever its workers do, a goroutine of a worker is started
only after all earlier ones were cancelled and have returned or ignored it for the grace period.
As long as no goroutine of the worker ignores its cancellation for that long, at most one is
running. Every run of the worker but at most one was counted as a restart. -/
theorem overlap_only_past_grace {o : Options} {s : System} {ws : List Worker} {now : Time}
    {es : List SystemEvent} (h : Runs.run (step o) (init ws now) es = some s) {w : Worker}
    {st : State} (hst : (w, st) ∈ s.workers) :
    st.runs.Pairwise (fun newer older => ∃ c ∈ older.cancelledAt,
      older.exited = true ∨ c + o.intervals.gracePeriod ≤ newer.started) ∧
    ((∀ g ∈ st.runs, g.exited = false → ∀ c ∈ g.cancelledAt,
        st.now < c + o.intervals.gracePeriod) →
      (st.runs.filter fun g => !g.exited).length ≤ 1) ∧
    st.restarts ≤ st.runs.length ∧ st.runs.length ≤ st.restarts + 1 ∧ st.stalls ≤ st.restarts := by
  obtain ⟨own, hown⟩ := exists_run_of_run h hst
  have ho := orderly_of_run hown
  have hc := counted_of_run hown
  exact ⟨ho.retired, ho.length_filter_le_one, hc.runs.bounds.1, hc.runs.bounds.2, hc.stalls_le⟩

theorem overlap_abandoned :
    ∃ s, Runs.run (step ⟨new 0 0, 0, 0, []⟩) (init [⟨[], 0, 0⟩] 0)
        [.worker 0 (.loop .proceed), .forceRestart [], .worker 0 (.loop .force),
          .elapse (5 * second), .worker 0 (.loop .timer), .worker 0 (.loop .proceed),
          .elapse second, .worker 0 (.loop .timer), .worker 0 (.loop .proceed)] = some s ∧
      ∃ w st, (w, st) ∈ s.workers ∧ (st.runs.filter fun g => !g.exited).length = 2 ∧
        st.runs.Pairwise fun newer older => ∃ c ∈ older.cancelledAt,
          older.exited = true ∨ c + defGrace ≤ newer.started := by
  obtain ⟨s, hs, hlive⟩ := Option.map_eq_some_iff.mp (show
    (Runs.run (step ⟨new 0 0, 0, 0, []⟩) (init [⟨[], 0, 0⟩] 0)
      [.worker 0 (.loop .proceed), .forceRestart [], .worker 0 (.loop .force),
        .elapse (5 * second), .worker 0 (.loop .timer), .worker 0 (.loop .proceed),
        .elapse second, .worker 0 (.loop .timer), .worker 0 (.loop .proceed)]).map
      (fun s => s.workers.map fun w => (w.2.runs.filter fun g => !g.exited).length) =
        some [2] by decide +kernel)
  obtain ⟨⟨w, st⟩, hw, hlength⟩ : ∃ w ∈ s.workers,
      (w.2.runs.filter fun g => !g.exited).length = 2 :=
    List.mem_map.mp (hlive ▸ List.mem_singleton_self 2)
  exact ⟨s, hs, w, st, hw, hlength, (overlap_only_past_grace hs hw).1⟩

structure Spaced (o : Options) (s : System) : Prop where
  lastForce_eq : s.lastForce = s.forces.head?.getD zeroTime
  spaced : s.forces.Pairwise fun later earlier => earlier + o.hardCeiling < later
  forces_le : ∀ f ∈ s.forces, f ≤ s.now
  started : zeroTime + o.hardCeiling < s.now

namespace Spaced

variable {o : Options} {s s' : System} {e : SystemEvent}

theorem of_eq (h : Spaced o s) (hlast : s'.lastForce = s.lastForce) (hforces : s'.forces = s.forces)
    (hnow : s.now ≤ s'.now) : Spaced o s' where
  lastForce_eq := by rw [hlast, hforces, h.lastForce_eq]
  spaced := by
    rw [hforces]
    exact h.spaced
  forces_le f hf := (h.forces_le f (hforces ▸ hf)).trans hnow
  started := h.started.trans_le hnow

theorem add_lt_now (h : Spaced o s) (hhard : 0 < o.hardCeiling)
    (hlast : o.hardCeiling < s.now - s.lastForce) : ∀ f ∈ s.forces, f + o.hardCeiling < s.now := by
  have heq := h.lastForce_eq
  have hspaced := h.spaced
  rcases hforces : s.forces with _ | ⟨g, rest⟩
  · simp
  · rw [hforces] at heq hspaced
    have hg : s.lastForce = g := heq
    intro f hf
    rcases List.mem_cons.mp hf with rfl | hf
    · linarith
    · linarith [(List.pairwise_cons.mp hspaced).1 f hf]

theorem escalate (h : Spaced o s) : Spaced o (s.escalate o) := by
  unfold System.escalate
  split
  · rename_i hdue
    obtain ⟨hhard, -, -, hlast⟩ := hdue
    obtain ⟨workers, heq⟩ := s.forceRestart_eq o.builderName
    rw [heq]
    exact ⟨rfl, List.pairwise_cons.mpr ⟨h.add_lt_now hhard hlast, h.spaced⟩,
      List.forall_mem_cons.mpr ⟨le_rfl, h.forces_le⟩, h.started⟩
  · exact h

theorem step (h : Spaced o s) (hs : System.step o s e = some s') : Spaced o s' := by
  cases steps_of_step hs with
  | elapse d hd => exact h.of_eq rfl rfl (by simpa using hd)
  | cancel | worker | publish | confirm => exact h.of_eq rfl rfl le_rfl
  | forceRestart name =>
    obtain ⟨workers, heq⟩ := s.forceRestart_eq name
    rw [heq]
    exact h.of_eq rfl rfl le_rfl
  | watchdogTick live =>
    unfold watchdogTick
    split
    · exact h.escalate.of_eq rfl rfl le_rfl
    · exact h.escalate

/-- At a tick that finds the snapshot too old, the builder was asked to restart not longer than
the hard ceiling ago, if need be just now. -/
theorem exists_force (h : Spaced o s) (hhard : 0 < o.hardCeiling) (hname : o.builderName ≠ [])
    (hage : o.hardCeiling < s.snapshotAge) :
    ∃ f ∈ (s.escalate o).forces, s.now - o.hardCeiling ≤ f ∧ f ≤ s.now := by
  unfold System.escalate
  split
  · exact ⟨s.now, List.mem_cons_self, by linarith, le_rfl⟩
  · rename_i hdue
    have hrecent : s.now - s.lastForce ≤ o.hardCeiling :=
      not_lt.mp fun hlt => hdue ⟨hhard, hage, hname, hlt⟩
    have hlast := h.lastForce_eq
    rcases hforces : s.forces with _ | ⟨g, rest⟩
    · -- nobody was asked yet, and the zero time is long past
      have hzero : s.lastForce = zeroTime := by rw [hlast, hforces]; rfl
      linarith [h.started]
    · have hg : s.lastForce = g := by rw [hlast, hforces]; rfl
      exact ⟨g, List.mem_cons_self, by linarith, h.forces_le g (by simp [hforces])⟩

end Spaced

theorem snapshotAge_eq {s : System} {builtAt : Time} (h : s.builtAt = some builtAt) :
    s.snapshotAge = s.now - max builtAt s.confirmedAt := by
  simp only [snapshotAge, h]
  split
  · rename_i hlt
    rw [max_eq_right hlt.le]
  · rename_i hle
    rw [max_eq_left (not_lt.mp hle)]

theorem watchdogTick_pings_of_tripped {o : Options} {s : System} (h : s.tripped o = true)
    (live : Bool) : (s.watchdogTick o live).pings = s.pings := by
  simp only [watchdogTick, h, Bool.not_true, Bool.and_false, Bool.false_eq_true, if_false]
  unfold escalate
  obtain ⟨workers, heq⟩ := s.forceRestart_eq o.builderName
  rw [heq]
  split <;> rfl

theorem byName_congr {l l' : List (Worker × State)} (h : l.map Prod.fst = l'.map Prod.fst)
    (name : Str) : byName l name = byName l' name := by
  have hbyName : ∀ l : List (Worker × State), byName l name = (List.range
      (l.map Prod.fst).length).reverse.find? fun i => (l.map Prod.fst)[i]?.any (·.name = name) := by
    intro l
    simp [byName, Option.any_map]
  rw [hbyName, hbyName, h]

theorem exists_byName {workers : List Worker} {now : Time} {name : Str}
    (h : ∃ w ∈ workers, w.name = name) : ∃ i, byName (init workers now).workers name = some i := by
  obtain ⟨w, hw, rfl⟩ := h
  obtain ⟨i, hi⟩ := List.mem_iff_getElem?.mp hw
  refine Option.isSome_iff_exists.mp (List.find?_isSome.mpr ⟨i, ?_, ?_⟩)
  · simpa [init] using (List.getElem?_eq_some_iff.mp hi).1
  · simp [init, hi]

/-- Every request of the watchdog reached the worker that the builder's name stands for, and is
still pending there or was followed by the end of a run. -/
structure Heeded (o : Options) (i : ℕ) (s : System) : Prop where
  builder : byName s.workers o.builderName = some i
  asked : ∃ w st, s.workers[i]? = some (w, st) ∧ st.now = s.now ∧ st.Watching ∧
    ∀ f ∈ s.forces, st.AskedAt f

namespace Heeded

variable {o : Options} {i : ℕ} {s s' : System} {e : SystemEvent}

theorem of_lives (h : Heeded o i s) (hlives : Lives o.intervals i s s')
    (hnames : s'.workers.map Prod.fst = s.workers.map Prod.fst) (hforces : s'.forces = s.forces)
    (hle : ∀ f ∈ s.forces, f ≤ s.now) : Heeded o i s' := by
  obtain ⟨w, st, hst, hnow, hwatch, hasked⟩ := h.asked
  obtain ⟨st', es, hst', hrun, hclock⟩ := hlives w st hst
  refine ⟨(byName_congr hnames _).trans h.builder, w, st', hst', by linarith, ?_, ?_⟩
  · exact Runs.inv_of_steps hwatch (fun _ _ _ hw hs => hw.step hs) hrun
  · intro f hf
    rw [hforces] at hf
    exact State.askedAt_of_run hrun (by rw [hnow]; exact hle f hf) hwatch (hasked f hf)

theorem escalate (h : Heeded o i s) : Heeded o i (s.escalate o) := by
  unfold System.escalate
  split
  · obtain ⟨w, st, hst, hnow, hwatch, -⟩ := h.asked
    refine ⟨(byName_congr (map_fst_forceRestart s _) _).trans h.builder, w,
      { st with forceCh := true }, ?_, ?_, hwatch, fun f _ => Or.inl rfl⟩
    · simp [System.forceRestart, h.builder, hst]
    · obtain ⟨workers, heq⟩ := s.forceRestart_eq o.builderName
      rw [heq]
      exact hnow
  · exact h

theorem step (h : Heeded o i s) (hle : ∀ f ∈ s.forces, f ≤ s.now)
    (hs : System.step o s e = some s') : Heeded o i s' := by
  have hother : s'.forces = s.forces → Heeded o i s' := fun hforces =>
    h.of_lives (lives_of_step i hs) (map_fst_of_step hs) hforces hle
  cases steps_of_step hs with
  | elapse | cancel | worker | publish | confirm => exact hother rfl
  | forceRestart name =>
    obtain ⟨workers, heq⟩ := s.forceRestart_eq name
    exact hother (by rw [heq])
  | watchdogTick live =>
    obtain ⟨hbuilder, hasked⟩ := h.escalate
    refine ⟨by rwa [watchdogTick_workers], ?_⟩
    rwa [watchdogTick_workers, watchdogTick_now, watchdogTick_forces]

end Heeded

/-- In every run, the keepalive is withheld for an old snapshot only after the builder was asked to
restart, in this tick at the latest: within the hard ceiling, after the mirror was last known to be
current, and so that the request is in the builder's channel or a run of the builder was cancelled
since. Two such requests are more than the hard ceiling apart. -/
theorem withheld_only_after_force {o : Options} {workers : List Worker} {now : Time}
    {es : List SystemEvent} (hhard : 0 < o.hardCeiling) (htrip : o.hardCeiling ≤ o.tripCeiling)
    (hname : o.builderName ≠ []) (hbuilder : ∃ w ∈ workers, w.name = o.builderName)
    (hstart : zeroTime + o.hardCeiling < now) :
    Runs.Along (step o) (init workers now) (fun _ s e =>
      ∀ live, e = .watchdogTick live → o.tripCeiling < s.snapshotAge →
        (s.watchdogTick o live).pings = s.pings ∧
        ∃ f ∈ (s.watchdogTick o live).forces, s.now - o.hardCeiling ≤ f ∧ f ≤ s.now ∧
          (∀ builtAt ∈ s.builtAt, max builtAt s.confirmedAt < f) ∧
          ∃ i w st, byName s.workers o.builderName = some i ∧
            (s.watchdogTick o live).workers[i]? = some (w, st) ∧ st.AskedAt f) es ∧
    ∀ s, Runs.run (step o) (init workers now) es = some s →
      s.forces.Pairwise fun later earlier => earlier + o.hardCeiling < later := by
  have hinit : Spaced o (init workers now) := ⟨rfl, List.Pairwise.nil, by simp [init], hstart⟩
  obtain ⟨i, hi⟩ := @exists_byName workers now _ hbuilder
  have hinit' : Heeded o i (init workers now) := by
    have hlt : i < workers.length := by
      have hmem := List.mem_of_find?_eq_some hi
      simpa [init] using hmem
    refine ⟨hi, workers[i], State.init workers[i] now, by simp [init, hlt], rfl, ?_,
      fun f hf => absurd hf List.not_mem_nil⟩
    exact fun next hpc => nomatch hpc
  refine ⟨?_, fun s hrun => (Runs.inv_of_steps hinit (fun _ _ _ hi hs => hi.step hs) hrun).spaced⟩
  rintro pre e post s - hrun live rfl hage
  obtain ⟨hspaced, hheeded⟩ : Spaced o s ∧ Heeded o i s :=
    @Runs.inv_of_steps _ _ _ _ _ _ (fun s => Spaced o s ∧ Heeded o i s) ⟨hinit, hinit'⟩
      (fun _ _ _ h hs => ⟨h.1.step hs, h.2.step h.1.forces_le hs⟩) hrun
  have htripped : s.tripped o = true :=
    decide_eq_true ⟨hhard.trans_le htrip, hage⟩
  refine ⟨watchdogTick_pings_of_tripped htripped live, ?_⟩
  obtain ⟨f, hf, hfrom, hto⟩ := hspaced.exists_force hhard hname (htrip.trans_lt hage)
  obtain ⟨w, st, hst, -, -, hasked⟩ := hheeded.escalate.asked
  rw [watchdogTick_forces, watchdogTick_workers]
  refine ⟨f, hf, hfrom, hto, fun builtAt hbuilt => ?_, i, w, st, hheeded.builder, hst, hasked f hf⟩
  -- the snapshot is older than the hard ceiling, the request is not
  rw [snapshotAge_eq hbuilt] at hage
  linarith

/-- The builder runs, is asked to restart and stops, and the snapshot stays as it was. -/
theorem withheld_after_force_mirror :
    let o : Options := ⟨new 0 0, 600 * second, 1200 * second, ['m']⟩
    let es : List SystemEvent := [.worker 0 (.loop .proceed), .publish 0, .elapse (601 * second),
      .watchdogTick true, .worker 0 (.loop .force), .elapse (600 * second)]
    ∃ s, Runs.run (step o) (init [⟨['m'], 0, 0⟩] 0) es = some s ∧
      (s.snapshotAge = 1201 * second ∧ s.workers.map (·.2.forceCh) = [false]) ∧
      ∃ f ∈ (s.watchdogTick o true).forces, s.now - 600 * second ≤ f ∧
        ∃ w st, (w, st) ∈ (s.watchdogTick o true).workers ∧ st.AskedAt f := by
  intro o es
  obtain ⟨s, hs, hage⟩ := Option.map_eq_some_iff.mp (show
    (Runs.run (step o) (init [⟨['m'], 0, 0⟩] 0) es).map
      (fun s => (s.snapshotAge, s.workers.map (·.2.forceCh))) = some (1201 * second, [false]) by
        decide +kernel)
  obtain ⟨hage, htoken⟩ := Prod.mk.inj hage
  have h := (@withheld_only_after_force o [⟨['m'], 0, 0⟩] 0 (es ++ [.watchdogTick true]) (by decide)
    (by decide) (by decide) ⟨_, List.mem_singleton_self _, rfl⟩ (by decide)).1
  obtain ⟨-, f, hf, hfrom, -, -, i, w, st, -, hst, hasked⟩ :=
    h _ _ _ s rfl hs true rfl (by rw [hage]; decide)
  exact ⟨s, hs, ⟨hage, htoken⟩, f, hf, hfrom, w, st, List.mem_of_getElem? hst, hasked⟩

end System

end SplitDNS.Supervisor
