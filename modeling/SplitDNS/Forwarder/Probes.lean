import SplitDNS.Forwarder.Breaker
import SplitDNS.Runs.Basic

/-! # Probes of a breaker

The breaker with the requests it admitted, whose outcomes are recorded in any
order, late or never, and with the outcomes of requests that were sent past it.
Every outcome takes the breaker out of the half-open state, so as long as it is in
that state all its probes are outstanding.
-/

namespace SplitDNS.Forwarder

open Go

namespace Breaker

variable {b : Breaker} {t now : Time} {ok : Bool}

/-- The loop over the buckets ends: it is not entered, or every turn takes off some time. -/
def Ends (b : Breaker) (t : Time) : Prop :=
  ∀ start ∈ b.headStart, t - start < b.pol.window → b.bucketDur ≤ t - start → 0 < b.bucketDur

instance (b : Breaker) (t : Time) : Decidable (b.Ends t) :=
  inferInstanceAs (Decidable (∀ start ∈ b.headStart, _))

theorem advanceBuckets_frame (n : ℕ) (b : Breaker) :
    (advanceBuckets n b).pol = b.pol ∧ (advanceBuckets n b).bucketDur = b.bucketDur ∧
      (advanceBuckets n b).state = b.state := by
  induction n generalizing b with
  | zero => exact ⟨rfl, rfl, rfl⟩
  | succ n ih => exact ih _

theorem advanceLocked_frame (b : Breaker) (t : Time) :
    (b.advanceLocked t).pol = b.pol ∧ (b.advanceLocked t).bucketDur = b.bucketDur ∧
      (b.advanceLocked t).state = b.state := by
  unfold advanceLocked
  split
  · exact ⟨rfl, rfl, rfl⟩
  · split_ifs
    · exact ⟨rfl, rfl, rfl⟩
    · exact advanceBuckets_frame _ b

theorem record_frame (b : Breaker) (t : Time) (ok : Bool) :
    (b.record t ok).pol = b.pol ∧ (b.record t ok).bucketDur = b.bucketDur ∧
      (b.record t ok).state ≠ .halfOpen := by
  obtain ⟨hpol, hdur, -⟩ := b.advanceLocked_frame t
  unfold record
  dsimp only
  cases ok with
  | true =>
    rw [if_pos rfl]
    split_ifs with hs
    · exact ⟨hpol, hdur, CbState.noConfusion⟩
    · refine ⟨hpol, hdur, fun h => hs ?_⟩
      rw [h]
      exact CbState.noConfusion
  | false =>
    rw [if_neg Bool.false_ne_true]
    split
    · exact ⟨hpol, hdur, CbState.noConfusion⟩
    · rename_i hs
      split_ifs
      · exact ⟨hpol, hdur, CbState.noConfusion⟩
      · exact ⟨hpol, hdur, fun h => CbState.noConfusion (hs.symm.trans h)⟩
    · rename_i hs
      exact ⟨hpol, hdur, fun h => CbState.noConfusion (hs.symm.trans h)⟩

/-- A request is refused, or let through by a closed breaker, as the first probe or as a further
one. -/
theorem allow_cases (b : Breaker) (now : Time) :
    b.allow now = (b, false) ∨ b.state = .closed ∧ b.allow now = (b, true) ∨
      b.state = .tripped ∧ b.allow now = ({ b with state := .halfOpen, halfOpen := 1 }, true) ∨
      b.state = .halfOpen ∧ b.halfOpen < b.pol.halfOpenMax ∧
        b.allow now = ({ b with halfOpen := b.halfOpen + 1 }, true) := by
  unfold allow
  split
  · rename_i hs
    split_ifs
    · exact Or.inr (Or.inr (Or.inl ⟨hs, rfl⟩))
    · exact Or.inl rfl
  · rename_i hs
    split_ifs with hmax
    · exact Or.inr (Or.inr (Or.inr ⟨hs, hmax, rfl⟩))
    · exact Or.inl rfl
  · rename_i hs
    exact Or.inr (Or.inl ⟨hs, rfl⟩)

end Breaker

inductive BreakerEvent where
  | allow (now : Time)
  | record (request : ℕ) (now : Time) (ok : Bool)
  | forced (now : Time) (ok : Bool)

/-- A breaker with the number of requests it admitted, which ones have no outcome yet, and how many
had been admitted when it last became half-open. -/
structure Probing where
  breaker : Breaker
  admitted : ℕ := 0
  outstanding : List ℕ := []
  entered : ℕ := 0

namespace Probing

/-- A call, if it is one that may be made and that returns. -/
def step (s : Probing) : BreakerEvent → Option Probing
  | .allow now =>
    let (b, ok) := s.breaker.allow now
    some
      { breaker := b
        admitted := if ok then s.admitted + 1 else s.admitted
        outstanding := if ok then s.outstanding ++ [s.admitted] else s.outstanding
        entered :=
          if s.breaker.state ≠ .halfOpen && b.state = .halfOpen then s.admitted else s.entered }
  | .record request now ok =>
    if request ∈ s.outstanding ∧ s.breaker.Ends now then
      some
        { s with
          breaker := s.breaker.record now ok
          outstanding := s.outstanding.erase request }
    else none
  | .forced now ok =>
    if s.breaker.Ends now then some { s with breaker := s.breaker.record now ok } else none

/-- What is known of a half-open breaker: it has counted the requests since it became half-open,
and none of them has an outcome. -/
structure Tracked (pol : Settings) (s : Probing) : Prop where
  pol_eq : s.breaker.pol = pol.breaker.pol
  bucketDur_eq : s.breaker.bucketDur = pol.breaker.bucketDur
  entered_lt : s.breaker.state = .halfOpen → s.entered < s.admitted
  count : s.breaker.state = .halfOpen → s.breaker.halfOpen = s.admitted - s.entered
  le_max : s.breaker.state = .halfOpen → s.breaker.halfOpen ≤ max pol.halfOpenMax 1
  outstanding : s.breaker.state = .halfOpen →
    ∀ r, s.entered ≤ r → r < s.admitted → r ∈ s.outstanding

variable {pol : Settings} {s s' : Probing} {events : List BreakerEvent}

theorem tracked_of_not_halfOpen (hpol : s.breaker.pol = pol.breaker.pol)
    (hdur : s.breaker.bucketDur = pol.breaker.bucketDur) (h : s.breaker.state ≠ .halfOpen) :
    s.Tracked pol :=
  ⟨hpol, hdur, fun hs => absurd hs h, fun hs => absurd hs h, fun hs => absurd hs h,
    fun hs => absurd hs h⟩

theorem Tracked.allow (ht : s.Tracked pol) {now : Time} (h : s.step (.allow now) = some s') :
    s'.Tracked pol := by
  have hpol := ht.pol_eq
  have hdur := ht.bucketDur_eq
  rcases s.breaker.allow_cases now with heq | ⟨hs, heq⟩ | ⟨hs, heq⟩ | ⟨hs, hmax, heq⟩
  · have hsame : s' = s := by
      rw [step, heq] at h
      cases h
      simp
    rw [hsame]
    exact ht
  · simp only [step, heq] at h
    cases h
    exact tracked_of_not_halfOpen hpol hdur (by simp [hs])
  · simp only [step, heq, hs] at h
    cases h
    refine ⟨hpol, hdur, fun _ => ?_, fun _ => ?_, fun _ => le_max_right _ _, fun _ r hle hlt => ?_⟩
    · simp
    · simp
    · have hle' : s.admitted ≤ r := by simpa using hle
      have hlt' : r < s.admitted + 1 := by simpa using hlt
      have hr : r = s.admitted := by omega
      simp [hr]
  · simp only [step, heq, hs] at h
    cases h
    refine ⟨hpol, hdur, fun _ => ?_, fun _ => ?_, fun _ => ?_, fun _ r hle hlt => ?_⟩
    · have hlt := ht.entered_lt hs
      simp
      omega
    · have hcount := ht.count hs
      simp [hcount]
      omega
    · rw [hpol] at hmax
      exact hmax
    · have hle' : s.entered ≤ r := by simpa using hle
      have hlt' : r < s.admitted + 1 := by simpa using hlt
      rcases Nat.lt_succ_iff_lt_or_eq.mp hlt' with hlt' | hr
      · simp [ht.outstanding hs r hle' hlt']
      · simp [hr]

theorem Tracked.step (ht : s.Tracked pol) {e : BreakerEvent} (h : s.step e = some s') :
    s'.Tracked pol := by
  cases e with
  | allow now => exact ht.allow h
  | record request now ok =>
    obtain ⟨hpol, hdur, hstate⟩ := s.breaker.record_frame now ok
    simp only [Probing.step] at h
    split_ifs at h
    cases h
    exact tracked_of_not_halfOpen (hpol.trans ht.pol_eq) (hdur.trans ht.bucketDur_eq) hstate
  | forced now ok =>
    obtain ⟨hpol, hdur, hstate⟩ := s.breaker.record_frame now ok
    simp only [Probing.step] at h
    split_ifs at h
    cases h
    exact tracked_of_not_halfOpen (hpol.trans ht.pol_eq) (hdur.trans ht.bucketDur_eq) hstate

theorem run_tracked (h : Runs.run step ⟨pol.breaker, 0, [], 0⟩ events = some s) :
    s.Tracked pol := by
  refine @Runs.inv_of_run _ _ step ⟨pol.breaker, 0, [], 0⟩ s events (fun _ s => s.Tracked pol)
    (fun _ _ _ => True) ?_ ?_ (fun _ _ _ _ _ _ => trivial) h
  · exact tracked_of_not_halfOpen rfl rfl CbState.noConfusion
  · exact fun _ s e s' ht _ hs => ht.step hs

theorem ends_of_policy {pol : Policy}
    (h : Runs.run step ⟨newBreaker pol, 0, [], 0⟩ events = some s) (t : Time) :
    s.breaker.Ends t := by
  have hdur : 0 < s.breaker.bucketDur := by
    have hpos : (0 : ℤ) < max pol.buckets 1 := lt_of_lt_of_le one_pos (le_max_right _ _)
    rw [(run_tracked h).bucketDur_eq, Settings.breaker,
      Int.tdiv_eq_ediv_of_nonneg (hpos.le.trans pol.spans)]
    have hone := (Int.le_ediv_iff_mul_le hpos).mpr ((one_mul _).trans_le pol.spans)
    exact Int.lt_of_lt_of_le one_pos hone
  exact fun _ _ _ _ => hdur

/-- Along every run a half-open breaker has a probe without an outcome and has admitted no more
probes than it may, and a breaker without outstanding requests lets the next one through if it is
closed or its cooldown has passed. -/
theorem breaker_never_stuck (h : Runs.run step ⟨pol.breaker, 0, [], 0⟩ events = some s) :
    (s.breaker.state = .halfOpen →
      (∃ r ∈ s.outstanding, s.entered ≤ r) ∧
        (s.admitted : ℤ) - s.entered ≤ max pol.halfOpenMax 1) ∧
    (s.outstanding = [] → ∀ now,
      s.breaker.state = .closed ∨ pol.cooldown ≤ now - s.breaker.openedAt →
        (s.breaker.allow now).2 = true) := by
  have ht := run_tracked h
  have hprobe : s.breaker.state = .halfOpen → ∃ r ∈ s.outstanding, s.entered ≤ r := by
    intro hs
    exact ⟨s.entered, ht.outstanding hs s.entered le_rfl (ht.entered_lt hs), le_rfl⟩
  refine ⟨fun hs => ⟨hprobe hs, ?_⟩, fun hnone now hready => ?_⟩
  · rw [← ht.count hs]
    exact ht.le_max hs
  · have hcooldown : s.breaker.pol.cooldown = pol.cooldown := by rw [ht.pol_eq]; rfl
    cases hs : s.breaker.state with
    | closed => simp [Breaker.allow, hs]
    | tripped =>
      have hready := hready.resolve_left (by simp [hs])
      simp [Breaker.allow, hs, hcooldown, hready]
    | halfOpen =>
      obtain ⟨r, hr, -⟩ := hprobe hs
      rw [hnone] at hr
      cases hr

def touchy : Settings := { defaultPolicy.toSettings with consecFail := 1 }

/-- A failure opens the breaker, the next request after the cooldown is a probe. -/
theorem breaker_never_stuck_probe :
    ∃ s, Runs.run step ⟨touchy.breaker, 0, [], 0⟩
        [.allow 0, .record 0 second false, .allow (6 * second)] = some s ∧
      s.breaker.state = .halfOpen ∧ (∃ r ∈ s.outstanding, s.entered ≤ r) ∧
      (s.admitted : ℤ) - s.entered ≤ max touchy.halfOpenMax 1 := by
  have hany : (Runs.run step ⟨touchy.breaker, 0, [], 0⟩
      [.allow 0, .record 0 second false, .allow (6 * second)]).any
        (fun s => s.breaker.state = .halfOpen) = true := by decide +kernel
  rcases hrun : Runs.run step ⟨touchy.breaker, 0, [], 0⟩
      [.allow 0, .record 0 second false, .allow (6 * second)] with _ | s
  · rw [hrun] at hany
    cases hany
  · rw [hrun] at hany
    have hs : s.breaker.state = .halfOpen := of_decide_eq_true hany
    exact ⟨s, rfl, hs, (breaker_never_stuck hrun).1 hs⟩

end Probing

end SplitDNS.Forwarder
