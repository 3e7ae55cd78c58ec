import SplitDNS.Runs.Basic

/-! # Relations along runs

Runs that continue other runs, and relations between the two ends of a run that
follow from its single steps.
-/

namespace Runs

variable {S E : Type*} {step : S → E → Option S} {s₀ s : S} {es : List E}

theorem run_append_eq_some {es' : List E} :
    run step s₀ (es ++ es') = some s ↔
      ∃ s₁, run step s₀ es = some s₁ ∧ run step s₁ es' = some s := by
  simp [run, List.foldlM_append, Option.bind_eq_some_iff]

theorem run_cons_eq_some {e : E} :
    run step s₀ (e :: es) = some s ↔ ∃ s₁, step s₀ e = some s₁ ∧ run step s₁ es = some s := by
  simp [run, Option.bind_eq_some_iff]

/-- What every step keeps, a whole run keeps. -/
theorem inv_of_steps {Inv : S → Prop} (h₀ : Inv s₀)
    (hstep : ∀ s e s', Inv s → step s e = some s' → Inv s') (hrun : run step s₀ es = some s) :
    Inv s := by
  induction es generalizing s₀ with
  | nil =>
    obtain rfl : s₀ = s := by simpa [run] using hrun
    exact h₀
  | cons e es ih =>
    obtain ⟨s₁, hs₁, hrun⟩ := run_cons_eq_some.mp hrun
    exact ih (hstep s₀ e s₁ h₀ hs₁) hrun

/-- A preorder that every step from a state with the invariant respects relates the ends of a
run. -/
theorem rel_of_run {Inv : S → Prop} {R : S → S → Prop} (hrefl : ∀ s, R s s)
    (htrans : ∀ a b c, R a b → R b c → R a c) (h₀ : Inv s₀)
    (hinv : ∀ s e s', Inv s → step s e = some s' → Inv s')
    (hstep : ∀ s e s', Inv s → step s e = some s' → R s s') (hrun : run step s₀ es = some s) :
    R s₀ s := by
  induction es generalizing s₀ with
  | nil =>
    obtain rfl : s₀ = s := by simpa [run] using hrun
    exact hrefl s₀
  | cons e es ih =>
    obtain ⟨s₁, hs₁, hrun⟩ := run_cons_eq_some.mp hrun
    exact htrans _ _ _ (hstep s₀ e s₁ h₀ hs₁) (ih (hinv s₀ e s₁ h₀ hs₁) hrun)

end Runs
