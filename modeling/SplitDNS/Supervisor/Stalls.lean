import SplitDNS.Supervisor

/-! # Stalls

A run counts as stalled when a tick finds its heartbeat older than the ceiling.
All goroutines of a worker share the heartbeat, those left behind as well, so the
heartbeat is at least as fresh as the latest progress of any of them. The ticks
come often enough for a heartbeat that has stopped to be found in time.
-/

namespace SplitDNS.Supervisor

open Go

theorem tickAfter_le {every next now : Time} (hevery : 0 < every) :
    tickAfter every next now ≤ now + every := by
  have h := Int.ediv_mul_le (now - next) hevery.ne'
  unfold tickAfter
  linarith

/-- The heartbeat is not older than the current run, and a tick is due at the latest
`stallCheckEvery` after it becomes too old. -/
structure Beats (t : Intervals) (w : Worker) (s : State) : Prop where
  started_le_hb : ∀ g ∈ s.runs, g.started ≤ s.hb
  hb_le : s.runs ≠ [] → s.hb ≤ s.now
  next_le : ∀ next, s.pc = .monitor next → 0 < w.ceiling →
    next ≤ s.hb + w.ceiling + t.stallCheckEvery

variable {t : Intervals} {w : Worker} {s s' : State} {e : Event}

theorem runs_ne_nil_of_live {i : ℕ} (h : s.live i = true) : s.runs ≠ [] := by
  rintro hruns
  simp [State.live, hruns] at h

namespace Beats

theorem init (w : Worker) (now : Time) : Beats t w (State.init w now) where
  started_le_hb := by simp [State.init]
  hb_le h := absurd rfl h
  next_le _ h := by simp [State.init] at h

theorem of_eq (h : Beats t w s) (hhb : s'.hb = s.hb) (hnow : s.now ≤ s'.now)
    (hstarted : s'.runs.map (·.started) = s.runs.map (·.started))
    (hpc : ∀ next, s'.pc = .monitor next → s.pc = .monitor next) : Beats t w s' where
  started_le_hb g hg := by
    have hmem : g.started ∈ s.runs.map (·.started) := hstarted ▸ List.mem_map_of_mem hg
    obtain ⟨g', hg', heq⟩ := List.mem_map.mp hmem
    rw [hhb, ← heq]
    exact h.started_le_hb g' hg'
  hb_le hne := by
    rw [hhb]
    refine (h.hb_le fun hnil => hne ?_).trans hnow
    simpa [hnil] using hstarted
  next_le next hnext hceiling := by
    rw [hhb]
    exact h.next_le next (hpc next hnext) hceiling

theorem step (h : Beats t w s) (ho : Orderly t s.now s.runs s.pc) (hs : step t w s e = some s') :
    Beats t w s' := by
  cases moves_of_step hs with
  | elapse d hd =>
    exact h.of_eq rfl (by simpa using hd) rfl fun _ => id
  | cancel => exact h.of_eq rfl le_rfl (by simp [Goroutine.cancel]) fun _ => id
  | forceRestart => exact h.of_eq rfl le_rfl rfl fun _ => id
  | progress i hlive =>
    refine ⟨ho.started_le, fun _ => le_rfl, fun next hnext hceiling => ?_⟩
    have hle := h.hb_le (runs_ne_nil_of_live hlive)
    have hnext := h.next_le next hnext hceiling
    simp only
    linarith
  | exit i panicked hlive =>
    exact h.of_eq rfl le_rfl (map_started_exit s.runs i) fun _ => id
  | start hpc hctx =>
    refine ⟨?_, fun _ => le_rfl, fun next hnext hceiling => ?_⟩
    · simp only [State.start, List.forall_mem_cons]
      exact ⟨le_rfl, ho.started_le⟩
    · cases hnext
      simp only [State.start]
      linarith
  | leave c next oc hpc hstalled hforce =>
    refine h.of_eq rfl le_rfl (map_started_cancel s.runs s.now 0) ?_
    simp only [State.leave]
    split <;> simp
  | force next hpc htoken =>
    exact h.of_eq rfl le_rfl (map_started_cancel s.runs s.now 0) (by simp [State.leave])
  | tick next hpc hceiling hnext hage =>
    refine ⟨h.started_le_hb, h.hb_le, fun next' hnext' _ => ?_⟩
    cases hnext'
    have hle := @tickAfter_le t.stallCheckEvery next s.now t.stallCheckEvery_pos
    simp only
    linarith
  | exited oc deadline hpc hexited => exact h.of_eq rfl le_rfl rfl (by simp)
  | abandon oc deadline hpc hdeadline => exact h.of_eq rfl le_rfl rfl (by simp)
  | settle oc hpc hctx => exact h.of_eq rfl le_rfl rfl (by simp [State.settle])
  | wake wakeup hpc hwakeup => exact h.of_eq rfl le_rfl rfl (by simp)
  | stop c hpc => exact h.of_eq rfl le_rfl rfl (by simp)

theorem hb_le_of_step (h : Beats t w s) (hs : Supervisor.step t w s e = some s')
    (hne : s.runs ≠ []) : s.hb ≤ s'.hb ∧ s'.runs ≠ [] := by
  cases moves_of_step hs with
  | progress i hlive => exact ⟨h.hb_le hne, hne⟩
  | start hpc hctx => exact ⟨h.hb_le hne, List.cons_ne_nil _ _⟩
  | cancel => exact ⟨le_rfl, by simpa using hne⟩
  | exit i panicked hlive => exact ⟨le_rfl, by simpa using hne⟩
  | leave c next oc hpc hstalled hforce => exact ⟨le_rfl, by simpa [State.leave] using hne⟩
  | force next hpc htoken => exact ⟨le_rfl, by simpa [State.leave] using hne⟩
  | _ => exact ⟨le_rfl, hne⟩

end Beats

variable {now : Time} {es : List Event}

def Beating (t : Intervals) (w : Worker) (s : State) : Prop :=
  Beats t w s ∧ Orderly t s.now s.runs s.pc

theorem Beating.step (h : Beating t w s) (hs : step t w s e = some s') : Beating t w s' :=
  ⟨h.1.step h.2 hs, h.2.step hs⟩

theorem beating_of_run (h : Runs.run (step t w) (State.init w now) es = some s) : Beating t w s :=
  Runs.inv_of_steps ⟨Beats.init w now, Orderly.nil⟩ (fun _ _ _ hi hs => hi.step hs) h

theorem hb_le_of_run (hi : Beating t w s) (hne : s.runs ≠ [])
    (h : Runs.run (step t w) s es = some s') : s.hb ≤ s'.hb := by
  have hrel : s.runs ≠ [] → s.hb ≤ s'.hb ∧ s'.runs ≠ [] := by
    refine @Runs.rel_of_run _ _ _ _ _ _ (Beating t w)
      (fun a b => a.runs ≠ [] → a.hb ≤ b.hb ∧ b.runs ≠ []) (fun _ hne => ⟨le_rfl, hne⟩) ?_ hi
      (fun _ _ _ hi hs => hi.step hs) (fun _ _ _ hi hs hne => hi.1.hb_le_of_step hs hne) h
    intro a b c hab hbc hne
    obtain ⟨hle, hne⟩ := hab hne
    exact ⟨hle.trans (hbc hne).1, (hbc hne).2⟩
  exact (hrel hne).1

theorem age_of_stalled {deadline : Time} (hs : step t w s e = some s')
    (hpc : ∀ d, s.pc ≠ .grace .stalled d) (hstalled : s'.pc = .grace .stalled deadline) :
    w.ceiling < s.now - s.hb ∧ ∃ next, s.pc = .monitor next := by
  cases moves_of_step hs with
  | leave c next oc hmon hold hforce =>
    simp only [State.leave] at hstalled
    split at hstalled
    · cases hstalled
    · cases hstalled
      exact ⟨(hold rfl).2.2.2, next, hmon⟩
  | elapse | cancel | forceRestart | progress | exit => exact absurd hstalled (hpc deadline)
  | start | force | tick | exited | abandon | settle | wake | stop => cases hstalled

/-- In every run, when a worker is given up as stalled, none of its goroutines, not even one left
behind by an earlier restart, has reported progress within the ceiling, and the run itself is
older than that. -/
theorem stalled_only_without_progress {deadline : Time}
    (h : Runs.run (step t w) (State.init w now) es = some s) (hs : step t w s e = some s')
    (hpc : ∀ d, s.pc ≠ .grace .stalled d) (hstalled : s'.pc = .grace .stalled deadline) :
    (∀ pre i post s₁, es = pre ++ .progress i :: post →
      Runs.run (step t w) (State.init w now) pre = some s₁ → s₁.now + w.ceiling < s.now) ∧
    ∃ g ∈ s.runs.head?, g.started + w.ceiling < s.now := by
  obtain ⟨hage, next, hmon⟩ := age_of_stalled hs hpc hstalled
  constructor
  · rintro pre i post s₁ rfl hpre
    obtain ⟨s₁', hpre', hrest⟩ := Runs.run_append_eq_some.mp h
    obtain rfl : s₁ = s₁' := Option.some.inj (hpre.symm.trans hpre')
    obtain ⟨s₂, hprogress, hpost⟩ := Runs.run_cons_eq_some.mp hrest
    have hbeating := (beating_of_run hpre).step hprogress
    cases moves_of_step hprogress with
    | progress _ hlive =>
      have hle : s₁.now ≤ s.hb := hb_le_of_run hbeating (runs_ne_nil_of_live hlive) hpost
      linarith
  · obtain ⟨hbeats, horderly⟩ := beating_of_run h
    have hknows := horderly.knows
    rw [hmon] at hknows
    obtain ⟨g, hg⟩ := Option.isSome_iff_exists.mp hknows
    refine ⟨g, hg, ?_⟩
    linarith [hbeats.started_le_hb g (List.mem_of_mem_head? hg)]

theorem stalled_after_progress :
    ∃ s, Runs.run (step (new 0 0) ⟨[], 10 * second, 0⟩) (State.init ⟨[], 10 * second, 0⟩ 0)
        [.loop .proceed, .elapse second, .progress 0, .elapse (11 * second)] = some s ∧
      (step (new 0 0) ⟨[], 10 * second, 0⟩ s (.loop .tick)).map (·.pc) =
        some (.grace .stalled (17 * second)) ∧
      ∃ g ∈ s.runs.head?, g.started + 10 * second < s.now := by
  obtain ⟨s, hs, hend⟩ := Option.map_eq_some_iff.mp (show
    (Runs.run (step (new 0 0) ⟨[], 10 * second, 0⟩) (State.init ⟨[], 10 * second, 0⟩ 0)
      [.loop .proceed, .elapse second, .progress 0, .elapse (11 * second)]).map (fun s =>
        (s.pc, (step (new 0 0) ⟨[], 10 * second, 0⟩ s (.loop .tick)).map (·.pc))) =
      some (.monitor second, some (.grace .stalled (17 * second))) by decide +kernel)
  obtain ⟨hpc, htick⟩ := Prod.mk.inj hend
  obtain ⟨s', hs', hstalled⟩ := Option.map_eq_some_iff.mp htick
  exact ⟨s, hs, htick,
    (stalled_only_without_progress hs hs' (by simp [hpc]) hstalled).2⟩

end SplitDNS.Supervisor
