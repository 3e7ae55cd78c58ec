import SplitDNS.Supervisor

/-! # The rate of restarts

The pause before a run doubles with every run until a run lasts longer than
`healthyRun`, when it starts again at `defaultBackoff`. A worker may time its
failures so as to be restarted as often as possible, and the bound holds for all
of them. It comes from a reserve of time: what a state has in hand, a restart
takes from it, and the pauses and the long runs pay it back.
-/

namespace SplitDNS.Supervisor

open Go

/-- The backoffs of a worker that does not set its own. -/
def ladder : List Duration :=
  [second, 2 * second, 4 * second, 8 * second, 16 * second, 32 * second, maxBackoff]

/-- What is in hand when the next pause is this long, four to one. The best moment for a long run
is before the pause of sixteen seconds. -/
def credit (b : Duration) : Duration :=
  if b ≤ second then 0
  else if b ≤ 2 * second then 41 * second
  else if b ≤ 4 * second then 78 * second
  else if b ≤ 8 * second then 107 * second
  else if b ≤ 16 * second then 120 * second
  else if b ≤ 32 * second then 101 * second
  else 18 * second

theorem nextBackoff_mem_ladder : ∀ b ∈ ladder, nextBackoff b ∈ ladder := by decide

theorem credit_bounds : ∀ b ∈ ladder, 0 ≤ credit b ∧ credit b ≤ 120 * second := by decide

theorem credit_add_le : ∀ b ∈ ladder,
    credit b + 45 * second ≤ min (credit (nextBackoff b) + 4 * b) (165 * second) := by decide

/-- What a run of this length has paid; one longer than a healthy run pays no more. -/
def paidBy (d : Duration) : Duration := min (4 * d) (4 * healthyRun)

/-- What a state has in hand, by where the loop stands: the length of the run so far, or of the
pause that is left, makes the difference. -/
def Pc.reserve (b : Duration) (now : Time) (runFor : Duration) : Pc → Duration
  | .top => credit b
  | .monitor _ | .drain | .grace _ _ | .settle _ => credit b - paidBy runFor
  | .sleep wakeup => min (credit (nextBackoff b) + 4 * max (wakeup - now) 0) (165 * second)
  | .stopped => 165 * second

def Pc.inRun : Pc → Bool
  | .monitor _ | .drain | .grace _ _ | .settle _ => true
  | .top | .sleep _ | .stopped => false

theorem reserve_of_inRun {b runFor : Duration} {now : Time} {pc : Pc} (h : pc.inRun = true) :
    pc.reserve b now runFor = credit b - paidBy runFor := by
  cases pc with
  | top | sleep | stopped => cases h
  | monitor | drain | grace | settle => rfl

namespace State

def runFor (s : State) : Duration := (s.runs.head?.map (·.started)).elim 0 (s.now - ·)

def reserve (s : State) : Duration := s.pc.reserve s.backoff s.now s.runFor

end State

theorem paidBy_nonneg {d : Duration} (hd : 0 ≤ d) : 0 ≤ paidBy d :=
  le_min (by linarith) (by decide)

theorem paidBy_le_of_le_add {d d' x : Duration} (hx : 0 ≤ x) (hd : d' ≤ d + x) :
    paidBy d' ≤ paidBy d + 4 * x := by
  have hsum : paidBy d + 4 * x = min (4 * d + 4 * x) (4 * healthyRun + 4 * x) :=
    (min_add_add_right _ _ _).symm
  rw [hsum]
  exact le_min ((min_le_left _ _).trans (by linarith)) ((min_le_right _ _).trans (by linarith))

theorem reserve_elapse {b x runFor runFor' : Duration} {now : Time} (hx : 0 ≤ x)
    (hrun : runFor' ≤ runFor + x) (pc : Pc) :
    pc.reserve b now runFor ≤ 4 * x + pc.reserve b (now + x) runFor' := by
  cases pc with
  | top | stopped => exact le_add_of_nonneg_left (by linarith)
  | monitor | drain | grace | settle =>
    simp only [Pc.reserve]
    linarith [paidBy_le_of_le_add hx hrun]
  | sleep wakeup =>
    simp only [Pc.reserve]
    have hmax : max (wakeup - now) 0 ≤ max (wakeup - (now + x)) 0 + x :=
      max_le (by linarith [le_max_left (wakeup - (now + x)) 0])
        (by linarith [le_max_right (wakeup - (now + x)) 0])
    rw [← min_add_add_left]
    exact le_min ((min_le_left _ _).trans (by linarith)) ((min_le_right _ _).trans (by linarith))

theorem reserve_le {b runFor : Duration} {now : Time} (hb : b ∈ ladder) (hrun : 0 ≤ runFor)
    (pc : Pc) : pc.reserve b now runFor ≤ 165 * second := by
  have hcredit := (credit_bounds b hb).2
  have hpos : (0 : ℤ) < second := by decide
  cases pc with
  | top =>
    simp only [Pc.reserve]
    linarith
  | monitor | drain | grace | settle =>
    simp only [Pc.reserve]
    linarith [paidBy_nonneg hrun]
  | sleep wakeup => exact min_le_right _ _
  | stopped => exact le_rfl

theorem le_reserve {b runFor : Duration} {now : Time} (hb : b ∈ ladder) (pc : Pc) :
    -(120 * second) ≤ pc.reserve b now runFor := by
  have hcredit := (credit_bounds b hb).1
  have hnext := (credit_bounds _ (nextBackoff_mem_ladder b hb)).1
  have hpos : (0 : ℤ) < second := by decide
  cases pc with
  | top =>
    simp only [Pc.reserve]
    linarith
  | monitor | drain | grace | settle =>
    have hpaid : paidBy runFor ≤ 120 * second := min_le_right _ _
    simp only [Pc.reserve]
    linarith
  | sleep wakeup =>
    refine le_min ?_ (by linarith)
    linarith [le_max_right (wakeup - now) 0]
  | stopped =>
    simp only [Pc.reserve]
    linarith

/-- The restarts between two states are paid for by the time between them and by the reserve. -/
def Pays (s s' : State) : Prop :=
  45 * second * ((s'.restarts : ℤ) - s.restarts) ≤
    4 * (s'.now - s.now) + (s'.reserve - s.reserve)

theorem Pays.refl (s : State) : Pays s s := by simp [Pays]

theorem Pays.trans {a b c : State} (h : Pays a b) (h' : Pays b c) : Pays a c := by
  unfold Pays at *
  linarith

theorem Pays.of_le {s s' : State} (hnow : s'.now = s.now) (hrestarts : s'.restarts = s.restarts)
    (hreserve : s.reserve ≤ s'.reserve) : Pays s s' := by
  unfold Pays
  rw [hnow, hrestarts]
  linarith

structure Paced (t : Intervals) (s : State) : Prop where
  backoff : s.backoff ∈ ladder
  orderly : Orderly t s.now s.runs s.pc

namespace Paced

variable {t : Intervals} {w : Worker} {s s' : State} {e : Event}

theorem runFor_nonneg (h : Paced t s) : 0 ≤ s.runFor := by
  unfold State.runFor
  rcases hruns : s.runs with _ | ⟨g, rest⟩
  · exact le_rfl
  · have hle := h.orderly.started_le g (by simp [hruns])
    exact sub_nonneg.mpr hle

theorem step (h : Paced t s) (hs : step t w s e = some s') : Paced t s' := by
  refine ⟨?_, h.orderly.step hs⟩
  cases moves_of_step hs with
  | settle oc hpc hctx =>
    simp only [State.settle]
    split
    · decide
    · exact h.backoff
  | wake wakeup hpc hwakeup => exact nextBackoff_mem_ladder s.backoff h.backoff
  | _ => exact h.backoff

end Paced

section Steps

variable {t : Intervals} {w : Worker} {s s' : State} {e : Event}

theorem pays_elapse (s : State) {d : Duration} (hd : 0 ≤ d) :
    Pays s { s with now := s.now + d } := by
  have hrun : State.runFor { s with now := s.now + d } ≤ s.runFor + d := by
    unfold State.runFor
    rcases s.runs with _ | ⟨g, rest⟩
    · simpa using hd
    · simp only [List.head?_cons, Option.map_some, Option.elim_some]
      linarith
  have hreserve : s.reserve ≤ 4 * d + State.reserve { s with now := s.now + d } :=
    reserve_elapse hd hrun s.pc
  simp only [Pays]
  linarith

theorem healthy_eq (s : State) :
    (s.runs.head?.any fun g => decide (healthyRun < s.now - g.started)) =
      decide (healthyRun < s.runFor) := by
  unfold State.runFor
  cases s.runs.head? with
  | none => simp [healthyRun, second]
  | some g => rfl

/-- The run that ends is paid for by the pause after it, or was long enough for the shortest one
to do. -/
theorem pays_settle (h : Paced t s) {oc : Outcome} (hpc : s.pc = .settle oc) :
    Pays s (s.settle oc) := by
  have hreserve : s.reserve = credit s.backoff - paidBy s.runFor :=
    reserve_of_inRun (by rw [hpc]; rfl)
  have hpause (b : Duration) (hb : 0 ≤ b) : max (s.now + b - s.now) 0 = b := by
    rw [add_sub_cancel_left, max_eq_left hb]
  have hgain : 45 * second ≤ (s.settle oc).reserve - s.reserve := by
    rw [hreserve]
    simp only [State.settle, State.reserve, Pc.reserve, healthy_eq, decide_eq_true_eq]
    by_cases hhealthy : healthyRun < s.runFor
    · have hpaid : paidBy s.runFor = 120 * second := min_eq_right (by linarith)
      have hfirst : min (credit (nextBackoff defaultBackoff) + 4 * defaultBackoff) (165 * second) =
          45 * second := by decide
      rw [if_pos hhealthy, hpause _ (by decide), hfirst, hpaid]
      linarith [(credit_bounds s.backoff h.backoff).2]
    · have hpos : 0 ≤ s.backoff := (by decide : ∀ b ∈ ladder, (0 : ℤ) ≤ b) s.backoff h.backoff
      rw [if_neg hhealthy, hpause _ hpos]
      linarith [credit_add_le s.backoff h.backoff, paidBy_nonneg h.runFor_nonneg]
  simp only [Pays, State.settle, Nat.cast_add, Nat.cast_one] at hgain ⊢
  linarith

/-- The loop stays where it is, or moves on within a run. Marking goroutines as cancelled or as
gone does not change when the run started. -/
theorem pays_within (hpc : s'.pc = s.pc ∨ s.pc.inRun = true ∧ s'.pc.inRun = true)
    (hnow : s'.now = s.now) (hrestarts : s'.restarts = s.restarts)
    (hbackoff : s'.backoff = s.backoff)
    (hruns : s'.runs.map (·.started) = s.runs.map (·.started)) : Pays s s' := by
  refine Pays.of_le hnow hrestarts (le_of_eq ?_)
  have hrun : s'.runFor = s.runFor := by
    rw [State.runFor, State.runFor, ← List.head?_map, ← List.head?_map, hnow, hruns]
  unfold State.reserve
  rw [hnow, hbackoff, hrun]
  rcases hpc with hpc | ⟨hpc, hpc'⟩
  · rw [hpc]
  · rw [reserve_of_inRun hpc, reserve_of_inRun hpc']

theorem pays_leave {next : Time} (hpc : s.pc = .monitor next) (oc : Outcome) :
    Pays s (s.leave t oc) := by
  have hin : (s.leave t oc).pc.inRun = true := by
    simp only [State.leave]
    split <;> rfl
  exact pays_within (Or.inr ⟨by rw [hpc]; rfl, hin⟩) rfl rfl rfl
    (map_started_cancel s.runs s.now 0)

theorem pays_of_step (h : Paced t s) (hs : step t w s e = some s') : Pays s s' := by
  cases moves_of_step hs with
  | elapse d hd => exact pays_elapse s hd
  | cancel =>
    exact pays_within (Or.inl rfl) rfl rfl rfl (by simp [Goroutine.cancel])
  | forceRestart => exact pays_within (Or.inl rfl) rfl rfl rfl rfl
  | progress i hlive => exact pays_within (Or.inl rfl) rfl rfl rfl rfl
  | exit i panicked hlive =>
    exact pays_within (Or.inl rfl) rfl rfl rfl
      (map_started_exit s.runs i)
  | start hpc hctx =>
    refine Pays.of_le rfl rfl (le_of_eq ?_)
    simp [State.reserve, State.start, State.runFor, hpc, Pc.reserve, paidBy, healthyRun, second]
  | leave c next oc hpc hstalled hforce => exact pays_leave hpc oc
  | force next hpc htoken =>
    exact (pays_leave hpc .force).trans (pays_within (Or.inl rfl) rfl rfl rfl rfl)
  | tick next hpc hceiling hnext hage =>
    exact pays_within (Or.inr ⟨by rw [hpc]; rfl, rfl⟩) rfl rfl rfl rfl
  | exited oc deadline hpc hexited =>
    exact pays_within (Or.inr ⟨by rw [hpc]; rfl, rfl⟩) rfl rfl rfl rfl
  | abandon oc deadline hpc hdeadline =>
    exact pays_within (Or.inr ⟨by rw [hpc]; rfl, rfl⟩) rfl rfl rfl rfl
  | settle oc hpc hctx => exact pays_settle h hpc
  | wake wakeup hpc hwakeup =>
    refine Pays.of_le rfl rfl ?_
    have hover : max (wakeup - s.now) 0 = 0 := max_eq_right (by linarith)
    simp only [State.reserve, hpc, Pc.reserve, hover]
    exact (min_le_left _ _).trans (by linarith)
  | stop c hpc => exact Pays.of_le rfl rfl (reserve_le h.backoff h.runFor_nonneg s.pc)

end Steps

variable {t : Intervals} {w : Worker} {now : Time} {es es' : List Event} {s s' : State}

theorem paced_init (hw : w.backoff ≤ 0) (now : Time) : Paced t (State.init w now) := by
  refine ⟨?_, Orderly.nil⟩
  have hb : (State.init w now).backoff = defaultBackoff := if_pos hw
  rw [hb]
  decide

theorem paced_of_run (hp : Paced t s) (h : Runs.run (step t w) s es = some s') : Paced t s' :=
  Runs.inv_of_steps hp (fun _ _ _ hi hs => hi.step hs) h

theorem pays_of_run (hp : Paced t s) (h : Runs.run (step t w) s es = some s') : Pays s s' :=
  Runs.rel_of_run Pays.refl (fun _ _ _ => Pays.trans) hp (fun _ _ _ hi hs => hi.step hs)
    (fun _ _ _ hi hs => pays_of_step hi hs) h

/-- No worker is restarted more often than four times in forty-five seconds, in the long run:
however it fails, hangs, recovers or is forced, `restarts` grows by at most four for every
forty-five seconds after the first few. The first bound counts from the start of the worker,
the second over any stretch of its life. -/
theorem restarts_bounded (hw : w.backoff ≤ 0)
    (h : Runs.run (step t w) (State.init w now) es = some s)
    (h' : Runs.run (step t w) s es' = some s') :
    45 * second * (s.restarts : ℤ) ≤ 4 * (s.now - now) + 165 * second ∧
      45 * second * ((s'.restarts : ℤ) - s.restarts) ≤ 4 * (s'.now - s.now) + 285 * second := by
  have hp₀ : Paced t (State.init w now) := paced_init hw now
  have hp := paced_of_run hp₀ h
  have hp' := paced_of_run hp h'
  have hupper : s.reserve ≤ 165 * second := reserve_le hp.backoff hp.runFor_nonneg s.pc
  have hupper' : s'.reserve ≤ 165 * second := reserve_le hp'.backoff hp'.runFor_nonneg s'.pc
  have hlower : -(120 * second) ≤ s.reserve := le_reserve hp.backoff s.pc
  have hinit : 0 ≤ (State.init w now).reserve := (credit_bounds _ hp₀.backoff).1
  have hpays : 45 * second * ((s.restarts : ℤ) - 0) ≤
      4 * (s.now - now) + (s.reserve - (State.init w now).reserve) := pays_of_run hp₀ h
  have hpays' : 45 * second * ((s'.restarts : ℤ) - s.restarts) ≤
      4 * (s'.now - s.now) + (s'.reserve - s.reserve) := pays_of_run hp h'
  constructor <;> linarith

/-- A worker that fails at once is restarted five times in the first fifteen seconds, which is as
often as the bound allows. -/
theorem restarts_bounded_tight :
    ∃ s, Runs.run (step (new 0 0) ⟨[], 0, 0⟩) (State.init ⟨[], 0, 0⟩ 0)
        ([1, 2, 4, 8].flatMap (fun b => [.loop .proceed, .exit 0 true, .loop .done, .loop .done,
          .loop .proceed, .elapse (b * second), .loop .timer]) ++
          [.loop .proceed, .exit 0 true, .loop .done, .loop .done, .loop .proceed]) = some s ∧
      (s.restarts, s.now) = (5, 15 * second) ∧
      45 * second * (s.restarts : ℤ) ≤ 4 * (s.now - 0) + 165 * second := by
  obtain ⟨s, hs, hend⟩ := Option.map_eq_some_iff.mp (show
    (Runs.run (step (new 0 0) ⟨[], 0, 0⟩) (State.init ⟨[], 0, 0⟩ 0)
      ([1, 2, 4, 8].flatMap (fun b => [.loop .proceed, .exit 0 true, .loop .done, .loop .done,
        .loop .proceed, .elapse (b * second), .loop .timer]) ++
        [.loop .proceed, .exit 0 true, .loop .done, .loop .done, .loop .proceed])).map
      (fun s => (s.restarts, s.now)) = some (5, 15 * second) by decide +kernel)
  exact ⟨s, hs, hend, (@restarts_bounded _ _ _ _ [] _ s le_rfl hs rfl).1⟩

end SplitDNS.Supervisor
