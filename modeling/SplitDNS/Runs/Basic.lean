import Mathlib.Data.List.Induction

/-! # Runs

Runs of a machine that consumes one event at a time. A step may be disabled,
and a run exists when every one of its steps is enabled. Invariants may speak
about the history that led to a state, and may rely on a condition that every
step of the run meets.
-/

namespace Runs

variable {S E : Type*}

/-- The state after a list of events, if every step is enabled. -/
def run (step : S → E → Option S) (s : S) (es : List E) : Option S := es.foldlM step s

/-- A condition on the history, the state and the event of a step, met along a whole run. -/
def Along (step : S → E → Option S) (s₀ : S) (Ok : List E → S → E → Prop) (es : List E) : Prop :=
  ∀ pre e post s, es = pre ++ e :: post → run step s₀ pre = some s → Ok pre s e

/-- What every step of a loop that may fail keeps, of the items so far and the state, holds after
the loop. -/
theorem inv_foldlM {X : Type*} {step : S → E → Except X S} {P : List E → S → Prop} {s s' : S}
    {es : List E} (h : es.foldlM step s = .ok s') (h₀ : P [] s)
    (hstep : ∀ past, ∀ e ∈ es, ∀ s s', P past s → step s e = .ok s' → P (past ++ [e]) s') :
    P es s' := by
  induction es using List.reverseRecOn generalizing s' with
  | nil =>
    cases h
    exact h₀
  | append_singleton es e ih =>
    rw [List.foldlM_append] at h
    rcases hes : es.foldlM step s with x | s₁
    · rw [hes] at h
      cases h
    · rw [hes] at h
      change [e].foldlM step s₁ = .ok s' at h
      rw [List.foldlM_cons] at h
      rcases hlast : step s₁ e with x | s₂
      · rw [hlast] at h
        cases h
      · rw [hlast] at h
        cases h
        have hprev := ih hes fun past e he => hstep past e (List.mem_append_left _ he)
        exact hstep es e (List.mem_append_right _ List.mem_cons_self) s₁ _ hprev hlast

section Partial

variable {step : S → E → Option S} {s₀ s : S} {es : List E}

theorem run_concat (es : List E) (e : E) :
    run step s (es ++ [e]) = (run step s es).bind (step · e) := by
  simp [run, List.foldlM_append]

theorem run_concat_eq_some {e : E} {s' : S} (h : run step s (es ++ [e]) = some s') :
    ∃ s₁, run step s es = some s₁ ∧ step s₁ e = some s' := by
  rw [run_concat] at h
  exact Option.bind_eq_some_iff.mp h

theorem along_nil {Ok : List E → S → E → Prop} : Along step s Ok [] := by
  rintro pre e post s' h
  simp at h

theorem along_cons {Ok : List E → S → E → Prop} {e : E} :
    Along step s Ok (e :: es) ↔
      Ok [] s e ∧ ∀ s', step s e = some s' → Along step s' (fun hist => Ok (e :: hist)) es := by
  constructor
  · intro h
    refine ⟨h [] e es s rfl rfl, fun s' hs' pre e' post s'' hes hrun => ?_⟩
    exact h (e :: pre) e' post s'' (by rw [hes]; rfl) (by simpa [run, hs'] using hrun)
  · rintro ⟨h₀, h⟩ pre e' post s'' hes hrun
    rcases pre with _ | ⟨d, pre⟩
    · obtain ⟨rfl, rfl⟩ := List.cons.inj hes
      obtain rfl : s = s'' := by simpa [run] using hrun
      exact h₀
    · obtain ⟨rfl, rfl⟩ := List.cons.inj hes
      obtain ⟨s', hs', hrun⟩ : ∃ s', step s e = some s' ∧ run step s' pre = some s'' := by
        simpa [run, Option.bind_eq_some_iff] using hrun
      exact h s' hs' pre e' post s'' rfl hrun

instance decidableAlong : (es : List E) → (s : S) → (Ok : List E → S → E → Prop) →
    [∀ hist s e, Decidable (Ok hist s e)] → Decidable (Along step s Ok es)
  | [], _, _, _ => .isTrue along_nil
  | e :: es, s, Ok, _ =>
    match hs : step s e with
    | none => decidable_of_iff (Ok [] s e) (by simp [along_cons, hs])
    | some s' =>
      haveI := decidableAlong es s' fun hist => Ok (e :: hist)
      decidable_of_iff (Ok [] s e ∧ Along step s' (fun hist => Ok (e :: hist)) es)
        (by simp [along_cons, hs])

theorem Along.of_append {Ok : List E → S → E → Prop} {post : List E}
    (h : Along step s₀ Ok (es ++ post)) : Along step s₀ Ok es :=
  fun pre e post' s hes hs => h pre e (post' ++ post) s (by rw [hes]; simp) hs

theorem along_concat {Ok : List E → S → E → Prop} {e : E} (hrun : run step s₀ es = some s) :
    Along step s₀ Ok (es ++ [e]) ↔ Along step s₀ Ok es ∧ Ok es s e := by
  refine ⟨fun h => ⟨h.of_append, h es e [] s rfl hrun⟩, ?_⟩
  rintro ⟨h, he⟩ pre e' post s' hes hs'
  rcases List.eq_nil_or_concat post with rfl | ⟨post, d, rfl⟩
  · obtain ⟨rfl, hlast⟩ := List.append_inj' hes rfl
    obtain ⟨rfl, -⟩ := List.cons.inj hlast
    rw [hrun] at hs'
    cases hs'
    exact he
  · rw [List.concat_eq_append, ← List.cons_append, ← List.append_assoc] at hes
    exact h pre e' post s' (List.append_inj' hes rfl).1 hs'

/-- A property that a step keeps exactly if it meets a condition holds after a run exactly if all
steps meet it. -/
theorem iff_along {P Inv : S → Prop} {Ok : List E → S → E → Prop} (hP : P s₀) (h₀ : Inv s₀)
    (hinv : ∀ s e s', Inv s → step s e = some s' → Inv s')
    (hstep : ∀ hist s e s', Inv s → step s e = some s' → (P s' ↔ P s ∧ Ok hist s e))
    (hrun : run step s₀ es = some s) : (P s ↔ Along step s₀ Ok es) ∧ Inv s := by
  induction es using List.reverseRecOn generalizing s with
  | nil =>
    obtain rfl : s₀ = s := by simpa [run] using hrun
    exact ⟨iff_of_true hP along_nil, h₀⟩
  | append_singleton es e ih =>
    obtain ⟨s₁, hs₁, hs⟩ := run_concat_eq_some hrun
    obtain ⟨hiff, hi⟩ := ih hs₁
    exact ⟨by rw [hstep es s₁ e s hi hs, hiff, along_concat hs₁], hinv s₁ e s hi hs⟩

/-- An invariant of the history holds after every run whose steps meet a condition. -/
theorem inv_of_run {Inv : List E → S → Prop} {Ok : List E → S → E → Prop} (h₀ : Inv [] s₀)
    (hstep : ∀ hist s e s', Inv hist s → Ok hist s e → step s e = some s' → Inv (hist ++ [e]) s')
    (hok : Along step s₀ Ok es) (hrun : run step s₀ es = some s) : Inv es s := by
  induction es using List.reverseRecOn generalizing s with
  | nil =>
    obtain rfl : s₀ = s := by simpa [run] using hrun
    exact h₀
  | append_singleton es e ih =>
    obtain ⟨s₁, hs₁, hs⟩ := run_concat_eq_some hrun
    exact hstep es s₁ e s (ih hok.of_append hs₁) (hok es e [] s₁ rfl hs₁) hs

/-- What an invariant and the condition give for one step holds at every step of a run. -/
theorem along_of_inv {Inv : List E → S → Prop} {Ok Good : List E → S → E → Prop} (h₀ : Inv [] s₀)
    (hstep : ∀ hist s e s', Inv hist s → Ok hist s e → step s e = some s' → Inv (hist ++ [e]) s')
    (hgood : ∀ hist s e, Inv hist s → Ok hist s e → Good hist s e) (hok : Along step s₀ Ok es) :
    Along step s₀ Good es := by
  rintro pre e post s rfl hs
  exact hgood pre s e (inv_of_run h₀ hstep hok.of_append hs) (hok pre e post s rfl hs)

end Partial

section Total

variable {step : S → E → S} {s₀ : S}

/-- An invariant of the history of a machine whose steps are all enabled. -/
theorem inv_foldl {Inv : List E → S → Prop} (h₀ : Inv [] s₀)
    (hstep : ∀ hist s e, Inv hist s → Inv (hist ++ [e]) (step s e)) (es : List E) :
    Inv es (es.foldl step s₀) := by
  induction es using List.reverseRecOn with
  | nil => exact h₀
  | append_singleton es e ih =>
    rw [List.foldl_append]
    exact hstep es _ e ih

/-- The states of a run, each with the event it meets. -/
def trace (step : S → E → S) (s : S) : List E → List (S × E)
  | [] => []
  | e :: es => (s, e) :: trace step (step s e) es

theorem trace_concat (s : S) (es : List E) (e : E) :
    trace step s (es ++ [e]) = trace step s es ++ [(es.foldl step s, e)] := by
  induction es generalizing s with
  | nil => rfl
  | cons d es ih => simp [trace, ih]

/-- A condition on the past, the state and the event of a step, met at every step of a run. -/
def Always (step : S → E → S) (s₀ : S) (Ok : List (S × E) → S → E → Prop) (es : List E) : Prop :=
  ∀ pre e post, es = pre ++ e :: post → Ok (trace step s₀ pre) (pre.foldl step s₀) e

theorem always_nil {Ok : List (S × E) → S → E → Prop} : Always step s₀ Ok [] := by
  rintro pre e post h
  simp at h

theorem always_cons {Ok : List (S × E) → S → E → Prop} {e : E} {es : List E} :
    Always step s₀ Ok (e :: es) ↔
      Ok [] s₀ e ∧ Always step (step s₀ e) (fun past => Ok ((s₀, e) :: past)) es := by
  constructor
  · intro h
    exact ⟨h [] e es rfl, fun pre e' post hes => h (e :: pre) e' post (by rw [hes]; rfl)⟩
  · rintro ⟨h₀, h⟩ pre e' post hes
    rcases pre with _ | ⟨d, pre⟩
    · obtain ⟨rfl, rfl⟩ := List.cons.inj hes
      exact h₀
    · obtain ⟨rfl, rfl⟩ := List.cons.inj hes
      exact h pre e' post rfl

instance decidableAlways : (es : List E) → (s : S) → (Ok : List (S × E) → S → E → Prop) →
    [∀ past s e, Decidable (Ok past s e)] → Decidable (Always step s Ok es)
  | [], _, _, _ => .isTrue always_nil
  | e :: es, s, Ok, _ =>
    haveI := decidableAlways es (step s e) fun past => Ok ((s, e) :: past)
    decidable_of_iff _ always_cons.symm

/-- A condition on the states and events of a run, without its past. -/
theorem always_iff_forall_mem_trace {P : S → E → Prop} {es : List E} :
    Always step s₀ (fun _ s e => P s e) es ↔ ∀ p ∈ trace step s₀ es, P p.1 p.2 := by
  induction es generalizing s₀ with
  | nil => exact iff_of_true always_nil fun p hp => (List.not_mem_nil hp).elim
  | cons e es ih => rw [always_cons, ih, trace, List.forall_mem_cons]

theorem Always.and {Ok Ok' : List (S × E) → S → E → Prop} {es : List E} (h : Always step s₀ Ok es)
    (h' : Always step s₀ Ok' es) :
    Always step s₀ (fun past s e => Ok past s e ∧ Ok' past s e) es :=
  fun pre e post hes => ⟨h pre e post hes, h' pre e post hes⟩

theorem Always.of_append {Ok : List (S × E) → S → E → Prop} {es post : List E}
    (h : Always step s₀ Ok (es ++ post)) : Always step s₀ Ok es :=
  fun pre e post' hes => h pre e (post' ++ post) (by rw [hes]; simp)

theorem map_snd_trace (s : S) (es : List E) : (trace step s es).map Prod.snd = es := by
  induction es generalizing s with
  | nil => rfl
  | cons e es ih => simp [trace, ih]

/-- A relation between any two events in order relates each event to the past. -/
theorem always_of_pairwise {R : E → E → Prop} {es : List E} (h : es.Pairwise R) :
    Always step s₀ (fun past _ e => ∀ p ∈ past, R p.2 e) es := by
  rintro pre e post rfl p hp
  have hmem : p.2 ∈ pre := by
    rw [← @map_snd_trace _ _ step s₀ pre]
    exact List.mem_map_of_mem hp
  exact (List.pairwise_append.mp h).2.2 p.2 hmem e List.mem_cons_self

/-- An invariant kept by the steps that meet a condition holds after every run whose steps all
meet it. -/
theorem inv_of_always {Inv : List (S × E) → S → Prop} {Ok : List (S × E) → S → E → Prop}
    (h₀ : Inv [] s₀)
    (hstep : ∀ past s e, Inv past s → Ok past s e → Inv (past ++ [(s, e)]) (step s e))
    {es : List E} (hok : Always step s₀ Ok es) : Inv (trace step s₀ es) (es.foldl step s₀) := by
  induction es using List.reverseRecOn with
  | nil => exact h₀
  | append_singleton es e ih =>
    rw [trace_concat, List.foldl_append]
    exact hstep _ _ e (ih hok.of_append) (hok es e [] rfl)

/-- What the invariant and the condition give for one step holds at every step of a run. -/
theorem always_of_inv {Inv : List (S × E) → S → Prop} {Ok Good : List (S × E) → S → E → Prop}
    (h₀ : Inv [] s₀)
    (hstep : ∀ past s e, Inv past s → Ok past s e → Inv (past ++ [(s, e)]) (step s e))
    (hgood : ∀ past s e, Inv past s → Ok past s e → Good past s e) {es : List E}
    (hok : Always step s₀ Ok es) : Always step s₀ Good es := by
  rintro pre e post rfl
  exact hgood _ _ e (inv_of_always h₀ hstep hok.of_append) (hok pre e post rfl)

end Total

end Runs
