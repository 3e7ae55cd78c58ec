import SplitDNS.Diag.Control

/-! # Guessing the password

The backoff is checked under the lock and armed under the lock, but the lock is
given up in between, so requests that were checked together compare together. The
number of wrong passwords in a stretch of time is bounded by how many requests
may be between the two, and by how often somebody knew the password, since that
clears the backoff for all.
-/

namespace SplitDNS.Diag

open Go

def maxAuthBackoff : Duration := 30 * second

theorem authBackoff_of_le {n : ℕ} (h : 11 ≤ n) : authBackoff n = maxAuthBackoff := by
  have hmin : min (n - 6) 5 = 5 := by omega
  simp only [authBackoff, hmin]
  rw [if_neg (by omega)]
  rfl

namespace Plane

/-- The guesses that may still be made without waiting, counted in the longest delay: until it is
reached, ten less those made and one for each request that may be under way; after that, the
requests under way and those the time since the last guess has paid for. -/
def allowance (c : ℕ) (s : Plane) : Duration :=
  if s.ctl.authFails ≤ 10 then maxAuthBackoff * (10 - s.ctl.authFails + c)
  else max (maxAuthBackoff * s.checked.length)
    (c * (maxAuthBackoff - max (s.ctl.authBlockUntil - s.now) 0))

/-- The wrong guesses between two states are paid for by time, by the right ones, and by the
allowance. -/
def Charged (c : ℕ) (s₀ s : Plane) : Prop :=
  maxAuthBackoff * ((s.wrong : ℤ) - s₀.wrong) + allowance c s ≤
    allowance c s₀ + maxAuthBackoff * ((10 + c) * ((s.right : ℤ) - s₀.right)) +
      c * (s.now - s₀.now)

variable {srv : Server} {c : ℕ} {s₀ s s' : Plane} {e : ControlEvent}

theorem Charged.trans {a b d : Plane} (h : Charged c a b) (h' : Charged c b d) :
    Charged c a d := by
  unfold Charged at *
  linarith

theorem allowance_of_le (h : s.ctl.authFails ≤ 10) :
    allowance c s = maxAuthBackoff * (10 - s.ctl.authFails + c) := if_pos h

theorem allowance_of_lt (h : 10 < s.ctl.authFails) :
    allowance c s = max (maxAuthBackoff * s.checked.length)
      (c * (maxAuthBackoff - max (s.ctl.authBlockUntil - s.now) 0)) := if_neg (not_le.mpr h)

theorem maxAuthBackoff_pos : 0 < maxAuthBackoff := by decide

theorem allowance_nonneg (c : ℕ) (s : Plane) : 0 ≤ allowance c s := by
  unfold allowance
  split
  · rename_i h
    have hle : (s.ctl.authFails : ℤ) ≤ 10 := by exact_mod_cast h
    exact mul_nonneg maxAuthBackoff_pos.le (by linarith [Int.natCast_nonneg c])
  · exact (mul_nonneg maxAuthBackoff_pos.le (Int.natCast_nonneg _)).trans (le_max_left _ _)

theorem allowance_le (hq : s.checked.length ≤ c) :
    allowance c s ≤ maxAuthBackoff * (10 + c) := by
  have hpos := maxAuthBackoff_pos
  have hc : (0 : ℤ) ≤ c := Int.natCast_nonneg c
  unfold allowance
  split
  · exact mul_le_mul_of_nonneg_left (by linarith [Int.natCast_nonneg s.ctl.authFails]) hpos.le
  · refine max_le (mul_le_mul_of_nonneg_left ?_ hpos.le) ?_
    · have hq' : (s.checked.length : ℤ) ≤ c := by exact_mod_cast hq
      linarith
    · have hblock := le_max_right (s.ctl.authBlockUntil - s.now) 0
      calc c * (maxAuthBackoff - max (s.ctl.authBlockUntil - s.now) 0)
          ≤ c * maxAuthBackoff := mul_le_mul_of_nonneg_left (by linarith) hc
        _ ≤ maxAuthBackoff * (10 + c) := by linarith

theorem charged_elapse (s : Plane) {d : Duration} (hd : 0 ≤ d) :
    Charged c s { s with now := s.now + d } := by
  have hc : (0 : ℤ) ≤ c := Int.natCast_nonneg c
  have hallow : allowance c { s with now := s.now + d } ≤ allowance c s + c * d := by
    unfold allowance
    split
    · linarith [mul_nonneg hc hd]
    · have hblock : max (s.ctl.authBlockUntil - s.now) 0 ≤
          max (s.ctl.authBlockUntil - (s.now + d)) 0 + d :=
        max_le (by linarith [le_max_left (s.ctl.authBlockUntil - (s.now + d)) 0])
          (by linarith [le_max_right (s.ctl.authBlockUntil - (s.now + d)) 0])
      have hscaled := mul_le_mul_of_nonneg_left hblock hc
      refine max_le ?_ ?_
      · linarith [le_max_left (maxAuthBackoff * (s.checked.length : ℤ))
          (c * (maxAuthBackoff - max (s.ctl.authBlockUntil - s.now) 0)), mul_nonneg hc hd]
      · linarith [le_max_right (maxAuthBackoff * (s.checked.length : ℤ))
          (c * (maxAuthBackoff - max (s.ctl.authBlockUntil - s.now) 0))]
  simp only [Charged]
  linarith

theorem charged_check {r : Request} (hblock : s.ctl.authBlockUntil ≤ s.now)
    (hq : s.checked.length < c) : Charged c s { s with checked := r :: s.checked } := by
  have hallow : allowance c { s with checked := r :: s.checked } ≤ allowance c s := by
    unfold allowance
    split
    · exact le_rfl
    · have hzero : max (s.ctl.authBlockUntil - s.now) 0 = 0 := max_eq_right (by linarith)
      have hq' : ((s.checked.length + 1 : ℕ) : ℤ) ≤ c := by exact_mod_cast hq
      simp only [hzero, List.length_cons, sub_zero]
      refine max_le (le_max_of_le_right ?_) (le_max_right _ _)
      rw [mul_comm (c : ℤ)]
      exact mul_le_mul_of_nonneg_left hq' maxAuthBackoff_pos.le
  simp only [Charged]
  linarith

/-- A wrong guess is charged to the allowance and, at the longest delay, leaves nothing but the
requests under way. -/
theorem allowance_failed {i : ℕ} (hi : i < s.checked.length) (hq : s.checked.length ≤ c) :
    maxAuthBackoff + allowance c { s with
      ctl := authFailed s.ctl s.now
      checked := s.checked.eraseIdx i
      wrong := s.wrong + 1 } ≤ allowance c s := by
  have hq' : (s.checked.length : ℤ) ≤ c := by exact_mod_cast hq
  have hlength : ((s.checked.eraseIdx i).length : ℤ) = s.checked.length - 1 := by
    rw [List.length_eraseIdx_of_lt hi]
    omega
  by_cases hfew : s.ctl.authFails + 1 ≤ 10
  · rw [allowance_of_le hfew, allowance_of_le (Nat.le_of_succ_le hfew)]
    simp only [authFailed, Nat.cast_add, Nat.cast_one]
    linarith
  · have hbackoff : authBackoff (s.ctl.authFails + 1) = maxAuthBackoff :=
      authBackoff_of_le (by omega)
    have hdelay : max (s.now + maxAuthBackoff - s.now) 0 = maxAuthBackoff := by
      rw [add_sub_cancel_left]
      exact max_eq_left maxAuthBackoff_pos.le
    have hlast : (0 : ℤ) ≤ s.checked.length - 1 := by omega
    have hafter : allowance c { s with
        ctl := authFailed s.ctl s.now
        checked := s.checked.eraseIdx i
        wrong := s.wrong + 1 } = maxAuthBackoff * (s.checked.length - 1) := by
      rw [allowance_of_lt (not_le.mp hfew)]
      simp only [authFailed, hbackoff, if_pos maxAuthBackoff_pos, hdelay, sub_self, mul_zero,
        hlength]
      exact max_eq_left (mul_nonneg maxAuthBackoff_pos.le hlast)
    rw [hafter]
    by_cases hten : s.ctl.authFails ≤ 10
    · -- the tenth wrong guess in a row was the last one that did not use up the allowance
      have heq : (s.ctl.authFails : ℤ) = 10 := by omega
      have hscaled := mul_le_mul_of_nonneg_left hq' maxAuthBackoff_pos.le
      rw [allowance_of_le hten, heq]
      linarith
    · rw [allowance_of_lt (not_le.mp hten)]
      refine le_max_of_le_left ?_
      linarith

theorem charged_compare {i : ℕ} {r : Request} (hr : s.checked[i]? = some r)
    (hq : s.checked.length ≤ c) : Charged c s (s.compare srv i r) := by
  rcases s.compare_cases srv i r with ⟨-, heq⟩ | ⟨-, heq⟩ <;> rw [heq]
  · have hlt := (List.getElem?_eq_some_iff.mp hr).1
    have hallow := allowance_failed hlt hq
    simp only [Charged, Nat.cast_add, Nat.cast_one, sub_self, mul_zero, add_zero]
    linarith
  · have hpos := allowance_nonneg c s
    have hafter : allowance c { s with
        ctl := authSucceeded s.ctl
        checked := s.checked.eraseIdx i
        authorized := r :: s.authorized
        right := s.right + 1 } = maxAuthBackoff * (10 + c) := by
      simp [allowance, authSucceeded]
    simp only [Charged, hafter, Nat.cast_add, Nat.cast_one, sub_self, mul_zero, add_zero]
    linarith

theorem charged_of_eq (hwrong : s'.wrong = s.wrong) (hright : s'.right = s.right)
    (hnow : s'.now = s.now) (hchecked : s'.checked = s.checked)
    (hfails : s'.ctl.authFails = s.ctl.authFails)
    (hblock : s'.ctl.authBlockUntil = s.ctl.authBlockUntil) : Charged c s s' := by
  simp only [Charged, allowance, hwrong, hright, hnow, hchecked, hfails, hblock]
  linarith

theorem charged_limit (s : Plane) (action : Str) (request : Option Request) (calls : List Call) :
    Charged c s (s.limit action request calls) := by
  rcases s.limit_cases action request calls with heq | ⟨-, heq⟩ | ⟨-, heq⟩ <;> rw [heq] <;>
    exact charged_of_eq rfl rfl rfl rfl rfl rfl

theorem limit_checked (s : Plane) (action : Str) (request : Option Request) (calls : List Call) :
    (s.limit action request calls).checked = s.checked := by
  rcases s.limit_cases action request calls with heq | ⟨-, heq⟩ | ⟨-, heq⟩ <;> rw [heq]

/-- At most `c` requests are between the two uses of the lock. A request that is refused or needs
no password takes no room. -/
def roomFor (srv : Server) (c : ℕ) (s : Plane) : ControlEvent → Bool
  | .request r => (s.receive srv r).checked.length ≤ c
  | _ => true

theorem charged_of_step (hq : s.checked.length ≤ c) (hroom : roomFor srv c s e = true)
    (hs : step srv s e = some s') : s'.checked.length ≤ c ∧ Charged c s s' := by
  cases e with
  | elapse d =>
    obtain ⟨hd, rfl⟩ : 0 ≤ d ∧ _ = s' := by simpa [Plane.step] using hs
    exact ⟨hq, charged_elapse s hd⟩
  | request r =>
    cases hs
    have hle : (s.receive srv r).checked.length ≤ c := by simpa [roomFor] using hroom
    rcases s.receive_cases srv r with heq | ⟨-, -, ⟨hg, heq⟩ | ⟨-, heq⟩⟩ <;> rw [heq] at hle ⊢
    · exact ⟨hq, charged_of_eq rfl rfl rfl rfl rfl rfl⟩
    · exact ⟨hle, charged_check (gate_eq_compare hg).2 hle⟩
    · exact ⟨hq, charged_of_eq rfl rfl rfl rfl rfl rfl⟩
  | compare i =>
    obtain ⟨r, hr, rfl⟩ := Option.map_eq_some_iff.mp hs
    refine ⟨?_, charged_compare hr hq⟩
    have hle := (List.eraseIdx_sublist s.checked i).length_le
    rcases s.compare_cases srv i r with ⟨-, heq⟩ | ⟨-, heq⟩ <;> rw [heq] <;> exact hle.trans hq
  | act i =>
    obtain ⟨r, -, rfl⟩ := Option.map_eq_some_iff.mp hs
    refine ⟨by rwa [limit_checked], Charged.trans ?_ (charged_limit _ _ _ _)⟩
    exact charged_of_eq rfl rfl rfl rfl rfl rfl
  | probe action =>
    cases hs
    exact ⟨by rwa [limit_checked], charged_limit _ _ _ _⟩

/-- However requests interleave, at most `10 + c` wrong passwords are compared, and `c` more for
every thirty seconds, if no more than `c` requests are between the check of the backoff and the
comparison at any time. Every right password allows as many again at once, whoever sent it. This
holds over any stretch of time. -/
theorem guesses_bounded {es : List ControlEvent} (h₀ : s₀.checked.length ≤ c)
    (hroom : Runs.Along (step srv) s₀ (fun _ s e => roomFor srv c s e = true) es)
    (h : Runs.run (step srv) s₀ es = some s) :
    30 * second * ((s.wrong : ℤ) - s₀.wrong) ≤
      30 * second * ((10 + c) * ((s.right : ℤ) - s₀.right + 1)) + c * (s.now - s₀.now) := by
  have hinv : s.checked.length ≤ c ∧ Charged c s₀ s := by
    refine @Runs.inv_of_run _ _ _ _ _ _ (fun _ s => s.checked.length ≤ c ∧ Charged c s₀ s) _
      ⟨h₀, charged_of_eq rfl rfl rfl rfl rfl rfl⟩ ?_ hroom h
    rintro - s e s' ⟨hq, hcharged⟩ hok hs
    obtain ⟨hq', hcharged'⟩ := charged_of_step hq hok hs
    exact ⟨hq', hcharged.trans hcharged'⟩
  have hbefore := allowance_le h₀
  have hafter := allowance_nonneg c s
  have hcharged := hinv.2
  simp only [Charged, maxAuthBackoff] at hcharged hbefore
  linarith

/-- Two requests that are checked together make seven wrong guesses without a wait, one more than
they could one after the other. -/
theorem seven_guesses_at_once :
    ∃ s, Runs.run (step (controlled ['k'] false)) { now := 0 }
        ((List.replicate 5 [posted "/control/verify" [], .compare 0]).flatten ++
          [posted "/control/verify" [], posted "/control/verify" [], .compare 0, .compare 0]) =
        some s ∧
      (s.wrong, s.now) = (7, 0) ∧
      30 * second * ((s.wrong : ℤ) - 0) ≤
        30 * second * ((10 + 2) * ((s.right : ℤ) - 0 + 1)) + 2 * (s.now - 0) := by
  obtain ⟨s, hs, hend⟩ := Option.map_eq_some_iff.mp (show
    (Runs.run (step (controlled ['k'] false)) { now := 0 }
      ((List.replicate 5 [posted "/control/verify" [], .compare 0]).flatten ++
        [posted "/control/verify" [], posted "/control/verify" [], .compare 0, .compare 0])).map
      (fun s => (s.wrong, s.now)) = some (7, 0) by decide +kernel)
  exact ⟨s, hs, hend, @guesses_bounded _ 2 { now := 0 } s _ (by decide) (by decide +kernel) hs⟩

end Plane

end SplitDNS.Diag
