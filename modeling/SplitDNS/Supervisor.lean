import Mathlib.Algebra.Order.Ring.Int
import Mathlib.Data.List.Induction
import Mathlib.Tactic.Linarith
import SplitDNS.Go.Basic
import SplitDNS.Go.Slices
import SplitDNS.Runs.Relations

/-! # Supervised workers

The loop that keeps one worker running, beside the goroutines it has started for
it. The loop waits for the goroutine of the current run, watches its heartbeat,
and starts another one after a pause. A goroutine that ignores the cancellation
of its context is left behind and goes on as it likes. What the loop does between
two waits is one step.
-/

namespace SplitDNS.Supervisor

open Go

def defaultBackoff : Duration := second

def maxBackoff : Duration := 60 * second

def defStallCheck : Duration := second

def defGrace : Duration := 5 * second

def healthyRun : Duration := 30 * second

structure Worker where
  name : Str
  ceiling : Duration
  backoff : Duration
  deriving DecidableEq

/-- The intervals of the stall detector, as `New` leaves them. -/
structure Intervals where
  stallCheckEvery : Duration
  gracePeriod : Duration
  stallCheckEvery_pos : 0 < stallCheckEvery
  gracePeriod_pos : 0 < gracePeriod

def new (stallCheckEvery gracePeriod : Duration) : Intervals where
  stallCheckEvery := if stallCheckEvery ≤ 0 then defStallCheck else stallCheckEvery
  gracePeriod := if gracePeriod ≤ 0 then defGrace else gracePeriod
  stallCheckEvery_pos := by
    split
    · decide
    · rename_i h
      exact not_le.mp h
  gracePeriod_pos := by
    split
    · decide
    · rename_i h
      exact not_le.mp h

inductive Outcome where
  | returned
  | stalled
  | force
  | shutdown
  deriving DecidableEq, Repr

/-- Where `superviseWorker` stands: at the head of its loop, in the `select` of `monitor` with the
time of the next tick, waiting for the worker at shutdown, in the grace period that follows an
outcome, past it, or in the pause before the next run. -/
inductive Pc where
  | top
  | monitor (nextTick : Time)
  | drain
  | grace (oc : Outcome) (deadline : Time)
  | settle (oc : Outcome)
  | sleep (wakeup : Time)
  | stopped
  deriving DecidableEq, Repr

structure Goroutine where
  started : Time
  cancelledAt : Option Time := none
  exited : Bool := false
  deriving DecidableEq, Repr

/-- The state of a worker and of its loop. The latest goroutine comes first. -/
structure State where
  now : Time
  ctxDone : Bool := false
  hb : Time := 0
  forceCh : Bool := false
  panics : ℕ := 0
  stalls : ℕ := 0
  restarts : ℕ := 0
  backoff : Duration
  runs : List Goroutine := []
  pc : Pc := .top
  deriving DecidableEq, Repr

/-- The communication that lets the loop go on; `proceed` where it waits for none. -/
inductive Case where
  | proceed
  | done
  | ctx
  | force
  | tick
  | timer
  deriving DecidableEq, Repr

/-- What happens to a worker. Goroutines are counted from the latest one. -/
inductive Event where
  | elapse (d : Duration)
  | cancel
  | forceRestart
  | progress (i : ℕ)
  | exit (i : ℕ) (panicked : Bool)
  | loop (c : Case)
  deriving DecidableEq, Repr

def Goroutine.cancel (now : Time) (g : Goroutine) : Goroutine :=
  { g with cancelledAt := g.cancelledAt.or (some now) }

def Goroutine.exit (g : Goroutine) : Goroutine := { g with exited := true }

def initialBackoff (w : Worker) : Duration := if w.backoff ≤ 0 then defaultBackoff else w.backoff

def nextBackoff (b : Duration) : Duration := if maxBackoff < 2 * b then maxBackoff else 2 * b

/-- The ticker drops the ticks nobody received in time. -/
def tickAfter (every next now : Time) : Time := next + every * ((now - next) / every + 1)

namespace State

def init (w : Worker) (now : Time) : State := { now, backoff := initialBackoff w }

def live (s : State) (i : ℕ) : Bool := (s.runs[i]?).any fun g => !g.exited

def currentExited (s : State) : Bool := s.runs.head?.any (·.exited)

def start (t : Intervals) (s : State) : State :=
  { s with
    hb := s.now
    runs := { started := s.now } :: s.runs
    pc := .monitor (s.now + t.stallCheckEvery) }

/-- `monitor` returned: the run's context is cancelled. -/
def leave (t : Intervals) (s : State) (oc : Outcome) : State :=
  { s with
    runs := s.runs.modify 0 (Goroutine.cancel s.now)
    pc := if oc = .shutdown then .drain else .grace oc (s.now + t.gracePeriod) }

/-- The run is over: it is counted, and the pause is chosen. -/
def settle (s : State) (oc : Outcome) : State :=
  let healthy := s.runs.head?.any fun g => healthyRun < s.now - g.started
  let backoff := if healthy then defaultBackoff else s.backoff
  { s with
    stalls := s.stalls + if oc = .stalled then 1 else 0
    restarts := s.restarts + 1
    backoff
    pc := .sleep (s.now + backoff) }

end State

/-- A step of the loop. Where two communications are ready, either may be taken. -/
def superviseWorker (t : Intervals) (w : Worker) (s : State) (c : Case) : Option State :=
  match s.pc, c with
  | .top, .proceed => some (if s.ctxDone then { s with pc := .stopped } else s.start t)
  | .monitor _, .done => if s.currentExited then some (s.leave t .returned) else none
  | .monitor _, .ctx => if s.ctxDone then some (s.leave t .shutdown) else none
  | .monitor _, .force =>
    if s.forceCh then some ({ s with forceCh := false }.leave t .force) else none
  | .monitor next, .tick =>
    if 0 < w.ceiling ∧ next ≤ s.now then
      some (if w.ceiling < s.now - s.hb then s.leave t .stalled
        else { s with pc := .monitor (tickAfter t.stallCheckEvery next s.now) })
    else none
  | .drain, .done => if s.currentExited then some { s with pc := .stopped } else none
  | .grace oc _, .done => if s.currentExited then some { s with pc := .settle oc } else none
  | .grace oc deadline, .timer =>
    if deadline ≤ s.now then some { s with pc := .settle oc } else none
  | .settle oc, .proceed => some (if s.ctxDone then { s with pc := .stopped } else s.settle oc)
  | .sleep _, .ctx => if s.ctxDone then some { s with pc := .stopped } else none
  | .sleep wakeup, .timer =>
    if wakeup ≤ s.now then some { s with backoff := nextBackoff s.backoff, pc := .top } else none
  | _, _ => none

/-- One step of the loop, of a goroutine, or of somebody else. A request to restart is dropped
when one is pending already. -/
def step (t : Intervals) (w : Worker) (s : State) : Event → Option State
  | .elapse d => if 0 ≤ d then some { s with now := s.now + d } else none
  | .cancel => some { s with ctxDone := true, runs := s.runs.map (Goroutine.cancel s.now) }
  | .forceRestart => some { s with forceCh := true }
  | .progress i => if s.live i then some { s with hb := s.now } else none
  | .exit i panicked =>
    if s.live i then
      some { s with
        runs := s.runs.modify i Goroutine.exit
        panics := s.panics + if panicked then 1 else 0 }
    else none
  | .loop c => superviseWorker t w s c

inductive Moves (t : Intervals) (w : Worker) (s : State) : Event → State → Prop
  | elapse (d : Duration) (hd : 0 ≤ d) : Moves t w s (.elapse d) { s with now := s.now + d }
  | cancel :
    Moves t w s .cancel { s with ctxDone := true, runs := s.runs.map (Goroutine.cancel s.now) }
  | forceRestart : Moves t w s .forceRestart { s with forceCh := true }
  | progress (i : ℕ) (hlive : s.live i = true) : Moves t w s (.progress i) { s with hb := s.now }
  | exit (i : ℕ) (panicked : Bool) (hlive : s.live i = true) :
    Moves t w s (.exit i panicked)
      { s with
        runs := s.runs.modify i Goroutine.exit
        panics := s.panics + if panicked then 1 else 0 }
  | start (hpc : s.pc = .top) (hctx : s.ctxDone = false) :
    Moves t w s (.loop .proceed) (s.start t)
  | leave (c : Case) (next : Time) (oc : Outcome) (hpc : s.pc = .monitor next)
    (hstalled : oc = .stalled → c = .tick ∧ 0 < w.ceiling ∧ next ≤ s.now ∧
      w.ceiling < s.now - s.hb)
    (hforce : oc ≠ .force) : Moves t w s (.loop c) (s.leave t oc)
  | force (next : Time) (hpc : s.pc = .monitor next) (htoken : s.forceCh = true) :
    Moves t w s (.loop .force) ({ s with forceCh := false }.leave t .force)
  | tick (next : Time) (hpc : s.pc = .monitor next) (hceiling : 0 < w.ceiling)
    (hnext : next ≤ s.now) (hage : s.now - s.hb ≤ w.ceiling) :
    Moves t w s (.loop .tick) { s with pc := .monitor (tickAfter t.stallCheckEvery next s.now) }
  | exited (oc : Outcome) (deadline : Time) (hpc : s.pc = .grace oc deadline)
    (hexited : s.currentExited = true) : Moves t w s (.loop .done) { s with pc := .settle oc }
  | abandon (oc : Outcome) (deadline : Time) (hpc : s.pc = .grace oc deadline)
    (hdeadline : deadline ≤ s.now) : Moves t w s (.loop .timer) { s with pc := .settle oc }
  | settle (oc : Outcome) (hpc : s.pc = .settle oc) (hctx : s.ctxDone = false) :
    Moves t w s (.loop .proceed) (s.settle oc)
  | wake (wakeup : Time) (hpc : s.pc = .sleep wakeup) (hwakeup : wakeup ≤ s.now) :
    Moves t w s (.loop .timer) { s with backoff := nextBackoff s.backoff, pc := .top }
  | stop (c : Case) (hpc : (s.pc = .drain ∧ s.currentExited = true) ∨ s.ctxDone = true) :
    Moves t w s (.loop c) { s with pc := .stopped }

theorem moves_of_superviseWorker {t : Intervals} {w : Worker} {s s' : State} {c : Case}
    (h : superviseWorker t w s c = some s') : Moves t w s (.loop c) s' := by
  unfold superviseWorker at h
  split at h
  case h_1 hpc =>
    cases h
    by_cases hctx : s.ctxDone = true
    · rw [if_pos hctx]
      exact .stop _ (Or.inr hctx)
    · rw [if_neg hctx]
      exact .start hpc (Bool.eq_false_iff.mpr hctx)
  case h_2 next hpc =>
    split at h
    · cases h
      exact .leave _ next _ hpc (by simp) (by simp)
    · cases h
  case h_3 next hpc =>
    split at h
    · cases h
      exact .leave _ next _ hpc (by simp) (by simp)
    · cases h
  case h_4 next hpc =>
    split at h
    · rename_i htoken
      cases h
      exact .force next hpc htoken
    · cases h
  case h_5 next hpc =>
    split at h
    · rename_i hready
      cases h
      by_cases hage : w.ceiling < s.now - s.hb
      · rw [if_pos hage]
        exact .leave _ next _ hpc (fun _ => ⟨rfl, hready.1, hready.2, hage⟩) (by simp)
      · rw [if_neg hage]
        exact .tick next hpc hready.1 hready.2 (not_lt.mp hage)
    · cases h
  case h_6 hpc =>
    split at h
    · rename_i hexited
      cases h
      exact .stop _ (Or.inl ⟨hpc, hexited⟩)
    · cases h
  case h_7 oc deadline hpc =>
    split at h
    · rename_i hexited
      cases h
      exact .exited oc deadline hpc hexited
    · cases h
  case h_8 oc deadline hpc =>
    split at h
    · rename_i hdeadline
      cases h
      exact .abandon oc deadline hpc hdeadline
    · cases h
  case h_9 oc hpc =>
    cases h
    by_cases hctx : s.ctxDone = true
    · rw [if_pos hctx]
      exact .stop _ (Or.inr hctx)
    · rw [if_neg hctx]
      exact .settle oc hpc (Bool.eq_false_iff.mpr hctx)
  case h_10 hpc =>
    split at h
    · rename_i hctx
      cases h
      exact .stop _ (Or.inr hctx)
    · cases h
  case h_11 wakeup hpc =>
    split at h
    · rename_i hwakeup
      cases h
      exact .wake wakeup hpc hwakeup
    · cases h
  case h_12 => cases h

theorem moves_of_step {t : Intervals} {w : Worker} {s s' : State} {e : Event}
    (h : step t w s e = some s') : Moves t w s e s' := by
  cases e with
  | elapse d =>
    obtain ⟨hd, rfl⟩ : 0 ≤ d ∧ _ = s' := by simpa [step] using h
    exact .elapse d hd
  | cancel =>
    cases h
    exact .cancel
  | forceRestart =>
    cases h
    exact .forceRestart
  | progress i =>
    obtain ⟨hlive, rfl⟩ : s.live i = true ∧ _ = s' := by simpa [step] using h
    exact .progress i hlive
  | exit i panicked =>
    obtain ⟨hlive, rfl⟩ : s.live i = true ∧ _ = s' := by
      simpa only [step, Option.ite_none_right_eq_some, Option.some.injEq] using h
    exact .exit i panicked hlive
  | loop c => exact moves_of_superviseWorker h

/-! ## Goroutines left behind -/

/-- The goroutine was cancelled, and has returned or had its grace period by then. -/
def Goroutine.RetiredBy (t : Intervals) (u : Time) (g : Goroutine) : Prop :=
  ∃ c ∈ g.cancelledAt, g.exited = true ∨ c + t.gracePeriod ≤ u

namespace Goroutine.RetiredBy

variable {t : Intervals} {u u' : Time} {g : Goroutine}

theorem mono (h : g.RetiredBy t u) (hu : u ≤ u') : g.RetiredBy t u' := by
  obtain ⟨c, hc, hexited | hgrace⟩ := h
  · exact ⟨c, hc, Or.inl hexited⟩
  · exact ⟨c, hc, Or.inr (hgrace.trans hu)⟩

theorem cancel (h : g.RetiredBy t u) (now : Time) : (g.cancel now).RetiredBy t u := by
  obtain ⟨c, hc, hg⟩ := h
  refine ⟨c, ?_, hg⟩
  rw [Option.mem_def] at hc ⊢
  simp [Goroutine.cancel, hc]

theorem exit (h : g.RetiredBy t u) : g.exit.RetiredBy t u := by
  obtain ⟨c, hc, -⟩ := h
  exact ⟨c, hc, Or.inl rfl⟩

end Goroutine.RetiredBy

/-- What the loop knows of the goroutine of the current run. -/
def Pc.Knows (t : Intervals) (now : Time) (current : Option Goroutine) : Pc → Prop
  | .top | .settle _ | .sleep _ => ∀ g ∈ current, g.RetiredBy t now
  | .monitor _ | .drain => current.isSome
  | .grace _ deadline => ∃ g ∈ current, ∃ c ∈ g.cancelledAt, c + t.gracePeriod ≤ deadline
  | .stopped => True

/-- A goroutine is started only after the earlier ones were cancelled and given their grace
period. -/
structure Orderly (t : Intervals) (now : Time) (runs : List Goroutine) (pc : Pc) : Prop where
  retired : runs.Pairwise fun newer older => older.RetiredBy t newer.started
  started_le : ∀ g ∈ runs, g.started ≤ now
  cancelled_le : ∀ g ∈ runs, ∀ c ∈ g.cancelledAt, c ≤ now
  knows : pc.Knows t now runs.head?

/-- The change of a goroutine that is cancelled or returns. -/
structure Goroutine.Ages (t : Intervals) (now : Time) (f : Goroutine → Goroutine) : Prop where
  started : ∀ g, (f g).started = g.started
  retired : ∀ g u, g.RetiredBy t u → (f g).RetiredBy t u
  cancelled : ∀ g, ∀ c ∈ g.cancelledAt, c ∈ (f g).cancelledAt
  cancelled_le : ∀ g, (∀ c ∈ g.cancelledAt, c ≤ now) → ∀ c ∈ (f g).cancelledAt, c ≤ now

theorem Goroutine.ages_cancel (t : Intervals) (now : Time) : Ages t now (Goroutine.cancel now) where
  started _ := rfl
  retired _ _ h := h.cancel now
  cancelled g c hc := by
    rw [Option.mem_def] at hc ⊢
    simp [Goroutine.cancel, hc]
  cancelled_le g h c hc := by
    rw [Option.mem_def] at hc
    rcases hg : g.cancelledAt with _ | c'
    · simp only [Goroutine.cancel, hg, Option.none_or, Option.some.injEq] at hc
      exact hc.ge
    · simp only [Goroutine.cancel, hg, Option.some_or, Option.some.injEq] at hc
      exact hc ▸ h c' hg

theorem Goroutine.ages_exit (t : Intervals) (now : Time) : Ages t now Goroutine.exit where
  started _ := rfl
  retired _ _ h := h.exit
  cancelled _ _ hc := hc
  cancelled_le _ h := h

theorem map_started_cancel (runs : List Goroutine) (now : Time) (i : ℕ) :
    (runs.modify i (Goroutine.cancel now)).map (·.started) = runs.map (·.started) := by
  apply map_modify_eq
  exact fun _ => rfl

theorem map_started_exit (runs : List Goroutine) (i : ℕ) :
    (runs.modify i Goroutine.exit).map (·.started) = runs.map (·.started) := by
  apply map_modify_eq
  exact fun _ => rfl

theorem Pc.Knows.map {t : Intervals} {now : Time} {current : Option Goroutine} {pc : Pc}
    {f : Goroutine → Goroutine} (hf : Goroutine.Ages t now f) (h : pc.Knows t now current) :
    pc.Knows t now (current.map f) := by
  rcases current with _ | g
  · exact h
  cases pc with
  | top | settle | sleep =>
    rintro _ ⟨⟩
    exact hf.retired g now (h g rfl)
  | monitor | drain | stopped => exact h
  | grace oc deadline =>
    obtain ⟨_, ⟨⟩, c, hc, hle⟩ := h
    exact ⟨f g, rfl, c, hf.cancelled g c hc, hle⟩

namespace Orderly

variable {t : Intervals} {now : Time} {runs : List Goroutine} {pc pc' : Pc}

theorem nil : Orderly t now [] .top where
  retired := List.Pairwise.nil
  started_le := by simp
  cancelled_le := by simp
  knows := by simp [Pc.Knows]

theorem elapse (h : Orderly t now runs pc) {d : Duration} (hd : 0 ≤ d) :
    Orderly t (now + d) runs pc where
  retired := h.retired
  started_le g hg := by linarith [h.started_le g hg]
  cancelled_le g hg c hc := by linarith [h.cancelled_le g hg c hc]
  knows := by
    have hk := h.knows
    have hle : now ≤ now + d := by linarith
    cases pc with
    | top | settle | sleep => exact fun g hg => (hk g hg).mono hle
    | monitor | drain | grace | stopped => exact hk

theorem of_knows (h : Orderly t now runs pc) (hk : pc'.Knows t now runs.head?) :
    Orderly t now runs pc' :=
  ⟨h.retired, h.started_le, h.cancelled_le, hk⟩

theorem map (h : Orderly t now runs pc) {f : Goroutine → Goroutine}
    (hf : Goroutine.Ages t now f) : Orderly t now (runs.map f) pc where
  retired := by
    refine List.pairwise_map.mpr (h.retired.imp fun hr => ?_)
    rw [hf.started]
    exact hf.retired _ _ hr
  started_le := by
    simp only [List.forall_mem_map, hf.started]
    exact h.started_le
  cancelled_le := by
    simp only [List.forall_mem_map]
    exact fun g hg => hf.cancelled_le g (h.cancelled_le g hg)
  knows := by
    rw [List.head?_map]
    exact h.knows.map hf

theorem modify (h : Orderly t now runs pc) {f : Goroutine → Goroutine}
    (hf : Goroutine.Ages t now f) (i : ℕ) (hk : pc'.Knows t now (runs.modify i f).head?) :
    Orderly t now (runs.modify i f) pc' where
  retired := by
    refine pairwise_modify (fun newer older hr => ?_) (fun newer older => hf.retired _ _)
      h.retired i
    rw [hf.started]
    exact hr
  started_le g hg := by
    rcases mem_or_of_mem_modify hg with hg | ⟨g', hg', rfl⟩
    · exact h.started_le g hg
    · rw [hf.started]
      exact h.started_le g' hg'
  cancelled_le g hg := by
    rcases mem_or_of_mem_modify hg with hg | ⟨g', hg', rfl⟩
    · exact h.cancelled_le g hg
    · exact hf.cancelled_le g' (h.cancelled_le g' hg')
  knows := hk

theorem exit (h : Orderly t now runs pc) (i : ℕ) :
    Orderly t now (runs.modify i Goroutine.exit) pc := by
  refine h.modify (Goroutine.ages_exit t now) i ?_
  rw [head?_modify]
  split
  · exact h.knows.map (Goroutine.ages_exit t now)
  · exact h.knows

theorem retiredBy_now (h : Orderly t now runs .top) : ∀ g ∈ runs, g.RetiredBy t now := by
  rcases runs with _ | ⟨current, rest⟩
  · simp
  · have hle : current.started ≤ now := h.started_le current List.mem_cons_self
    have hrest := (List.pairwise_cons.mp h.retired).1
    intro g hg
    rcases List.mem_cons.mp hg with rfl | hg
    · exact h.knows g rfl
    · exact (hrest g hg).mono hle

theorem start (h : Orderly t now runs .top) (next : Time) :
    Orderly t now ({ started := now } :: runs) (.monitor next) where
  retired := List.pairwise_cons.mpr ⟨h.retiredBy_now, h.retired⟩
  started_le := List.forall_mem_cons.mpr ⟨le_rfl, h.started_le⟩
  cancelled_le := List.forall_mem_cons.mpr ⟨by simp, h.cancelled_le⟩
  knows := rfl

theorem leave {next : Time} (h : Orderly t now runs (.monitor next)) (oc : Outcome) :
    Orderly t now (runs.modify 0 (Goroutine.cancel now))
      (if oc = .shutdown then .drain else .grace oc (now + t.gracePeriod)) := by
  have hages := Goroutine.ages_cancel t now
  refine h.modify hages 0 ?_
  obtain ⟨g, hg⟩ := Option.isSome_iff_exists.mp h.knows
  rw [head?_modify, if_pos rfl, hg]
  have hle := hages.cancelled_le g (h.cancelled_le g (List.mem_of_mem_head? hg))
  split
  · rfl
  · obtain ⟨c, hc⟩ : ∃ c, c ∈ (g.cancel now).cancelledAt := by
      cases hg' : g.cancelledAt <;> simp [Goroutine.cancel, hg']
    refine ⟨_, rfl, c, hc, ?_⟩
    linarith [hle c hc]

theorem step {w : Worker} {s s' : State} {e : Event} (h : Orderly t s.now s.runs s.pc)
    (hs : step t w s e = some s') : Orderly t s'.now s'.runs s'.pc := by
  cases moves_of_step hs with
  | elapse d hd => exact h.elapse hd
  | cancel => exact h.map (Goroutine.ages_cancel t s.now)
  | forceRestart => exact h
  | progress i hlive => exact h
  | exit i panicked hlive => exact h.exit i
  | start hpc hctx => exact (hpc ▸ h).start _
  | leave c next oc hpc hstalled hforce => exact (hpc ▸ h).leave oc
  | force next hpc htoken => exact (hpc ▸ h).leave .force
  | tick next hpc hceiling hnext hage =>
    have hk := h.knows
    rw [hpc] at hk
    exact h.of_knows hk
  | exited oc deadline hpc hexited =>
    have hk := h.knows
    rw [hpc] at hk
    obtain ⟨g, hg, c, hc, -⟩ := hk
    have hgone : g.exited = true := by
      simpa [State.currentExited, Option.mem_def.mp hg] using hexited
    refine h.of_knows fun g' hg' => ?_
    obtain rfl := Option.mem_unique hg hg'
    exact ⟨c, hc, Or.inl hgone⟩
  | abandon oc deadline hpc hdeadline =>
    have hk := h.knows
    rw [hpc] at hk
    obtain ⟨g, hg, c, hc, hle⟩ := hk
    refine h.of_knows fun g' hg' => ?_
    obtain rfl := Option.mem_unique hg hg'
    exact ⟨c, hc, Or.inr (hle.trans hdeadline)⟩
  | settle oc hpc hctx =>
    have hk := h.knows
    rw [hpc] at hk
    exact h.of_knows hk
  | wake wakeup hpc hwakeup =>
    have hk := h.knows
    rw [hpc] at hk
    exact h.of_knows hk
  | stop c hpc => exact h.of_knows trivial

end Orderly

/-- The runs that were started beside those that were counted as restarts. -/
def Pc.Counts (started restarts : ℕ) : Pc → Prop
  | .top | .sleep _ => started = restarts
  | .monitor _ | .drain | .grace _ _ | .settle _ => started = restarts + 1
  | .stopped => restarts ≤ started ∧ started ≤ restarts + 1

theorem Pc.Counts.bounds {started restarts : ℕ} {pc : Pc} (h : pc.Counts started restarts) :
    restarts ≤ started ∧ started ≤ restarts + 1 := by
  cases pc with
  | top | sleep =>
    obtain rfl : started = restarts := h
    omega
  | monitor | drain | grace | settle =>
    obtain rfl : started = restarts + 1 := h
    omega
  | stopped => exact h

/-- Every run but the current one was counted, and at most once as stalled. -/
structure Counted (s : State) : Prop where
  runs : s.pc.Counts s.runs.length s.restarts
  stalls_le : s.stalls ≤ s.restarts

theorem Counted.init (w : Worker) (now : Time) : Counted (State.init w now) := ⟨rfl, le_rfl⟩

theorem Counted.step {t : Intervals} {w : Worker} {s s' : State} {e : Event} (h : Counted s)
    (hs : step t w s e = some s') : Counted s' := by
  have hruns := h.runs
  have hstalls := h.stalls_le
  cases moves_of_step hs with
  | elapse d hd => exact ⟨hruns, hstalls⟩
  | cancel => exact ⟨by simpa using hruns, hstalls⟩
  | forceRestart => exact ⟨hruns, hstalls⟩
  | progress i hlive => exact ⟨hruns, hstalls⟩
  | exit i panicked hlive => exact ⟨by simpa using hruns, hstalls⟩
  | start hpc hctx =>
    rw [hpc] at hruns
    exact ⟨by simpa [State.start, Pc.Counts] using hruns, hstalls⟩
  | leave c next oc hpc hstalled hforce =>
    rw [hpc] at hruns
    refine ⟨?_, hstalls⟩
    simp only [State.leave, List.length_modify]
    split <;> exact hruns
  | force next hpc htoken =>
    rw [hpc] at hruns
    exact ⟨by simpa [State.leave, Pc.Counts] using hruns, hstalls⟩
  | tick next hpc hceiling hnext hage =>
    rw [hpc] at hruns
    exact ⟨hruns, hstalls⟩
  | exited oc deadline hpc hexited =>
    rw [hpc] at hruns
    exact ⟨hruns, hstalls⟩
  | abandon oc deadline hpc hdeadline =>
    rw [hpc] at hruns
    exact ⟨hruns, hstalls⟩
  | settle oc hpc hctx =>
    rw [hpc] at hruns
    refine ⟨hruns, ?_⟩
    simp only [State.settle]
    split <;> omega
  | wake wakeup hpc hwakeup =>
    rw [hpc] at hruns
    exact ⟨hruns, hstalls⟩
  | stop c hpc => exact ⟨hruns.bounds, hstalls⟩

variable {t : Intervals} {w : Worker} {now : Time} {es : List Event} {s : State}

theorem orderly_of_run (h : Runs.run (step t w) (State.init w now) es = some s) :
    Orderly t s.now s.runs s.pc :=
  @Runs.inv_of_steps _ _ _ _ _ _ (fun s => Orderly t s.now s.runs s.pc) Orderly.nil
    (fun _ _ _ hi hs => hi.step hs) h

theorem counted_of_run (h : Runs.run (step t w) (State.init w now) es = some s) : Counted s :=
  Runs.inv_of_steps (Counted.init w now) (fun _ _ _ hi hs => hi.step hs) h

/-- As long as no goroutine ignores its cancellation for the grace period, at most one is
running. -/
theorem Orderly.length_filter_le_one {runs : List Goroutine} {pc : Pc} (h : Orderly t now runs pc)
    (hprompt : ∀ g ∈ runs, g.exited = false → ∀ c ∈ g.cancelledAt, now < c + t.gracePeriod) :
    (runs.filter fun g => !g.exited).length ≤ 1 := by
  apply Go.length_filter_le_one
  refine h.retired.imp_of_mem fun {newer older} hnewer holder hr => ?_
  obtain ⟨c, hmem, hgone | hgrace⟩ := hr
  · simp [hgone]
  · -- the older goroutine was cancelled a grace period before the newer one started
    by_contra hlive
    have hexited : older.exited = false := by simpa using hlive
    linarith [hprompt older holder hexited c hmem, h.started_le newer hnewer]

end SplitDNS.Supervisor
