import SplitDNS.Forwarder.TryAll

/-! # When the breakers are harmless

A failover without breakers succeeds as soon as one eligible upstream answers.
With breakers it may not: the second pass is only made when the first one
attempted nothing, so an upstream that answers but is refused goes unasked as
soon as any other upstream is attempted.
-/

namespace SplitDNS.Forwarder

open Go Dns

/-- The breaker after a turn at which the attempt, if it admits one, fails. -/
def Breaker.failedTurn (b : Breaker) (turn done : Time) : Breaker :=
  let (b, ok) := b.allow turn
  if ok then b.record done false else b

variable (f : Forwarder) (attempt : Attempt) (requireSNI : Bool) (clock : Clock)

def Eligible (u : Upstream) : Prop := lacksServerName requireSNI u = false ∧ u.addr ∉ f.disabled

def Answers (u : Upstream) : Prop := ∃ m, attempt u = .ok m

/-- The upstream's breaker lets a request through at an instant. -/
def Admits (u : Upstream) (t : Time) : Prop :=
  ((breakerFor f.policy f.breakers u).allow t).2 = true

instance (u : Upstream) : Decidable (Eligible f requireSNI u) :=
  inferInstanceAs (Decidable (_ ∧ _))

instance (u : Upstream) (t : Time) : Decidable (Admits f u t) := inferInstanceAs (Decidable (_ = _))

/-- A breaker after the turns of the upstreams that share it, when none of them answers. -/
def failedTurns (key : Str) : ℕ → List Upstream → Breaker → Breaker
  | _, [], b => b
  | i, u :: us, b =>
    failedTurns key (i + 1) us
      (if Eligible f requireSNI u ∧ u.key = key then b.failedTurn (clock.turn i) (clock.done i)
      else b)

/-- The upstream at a place in the list is let through, if the eligible ones before it that
share its transport and address have failed. -/
def AdmitsAt (ups : List Upstream) (i : ℕ) (u : Upstream) : Prop :=
  ((failedTurns f requireSNI clock u.key 0 (ups.take i)
    (breakerFor f.policy f.breakers u)).allow (clock.turn i)).2 = true

instance (ups : List Upstream) (i : ℕ) (u : Upstream) :
    Decidable (AdmitsAt f requireSNI clock ups i u) := inferInstanceAs (Decidable (_ = _))

variable {f attempt requireSNI clock}

section Turns

variable {turn done : Time} {u v : Upstream} {p : Pass}

theorem attemptOn_resp (hp : p.resp = none) :
    (attemptOn f attempt done u p).resp.isSome = true ↔ Answers attempt u := by
  unfold attemptOn Answers
  rcases h : attempt u with e | m <;> simp [hp]

theorem attemptOn_allowedAny : (attemptOn f attempt done u p).allowedAny = p.allowedAny := by
  unfold attemptOn
  rcases attempt u with e | m <;> rfl

theorem breakerFor_insert {policy : Policy} {m : Map Str Breaker} {b : Breaker} :
    breakerFor policy (m.insert u.key b) v =
      if v.key = u.key then b else breakerFor policy m v := by
  unfold breakerFor
  rw [Map.lookup_insert_eq_ite]
  split_ifs <;> rfl

/-- The breaker at the turn of the upstream lets the request through, or there are none. -/
def Passes (f : Forwarder) (p : Pass) (u : Upstream) (turn : Time) : Prop :=
  f.breakerEnabled = true → ((breakerFor f.policy p.breakers u).allow turn).2 = true

theorem visit_skipped (h : ¬ Eligible f requireSNI u) :
    ∃ e, visit f attempt requireSNI turn done u p = { p with lastErr := some e } := by
  unfold visit
  by_cases hs : lacksServerName requireSNI u = true
  · exact ⟨_, if_pos hs⟩
  · have hd : u.addr ∈ f.disabled := by
      by_contra hd
      exact h ⟨by simpa using hs, hd⟩
    exact ⟨_, by rw [if_neg hs, if_pos hd]⟩

theorem visit_refused (h : Eligible f requireSNI u) (hr : ¬ Passes f p u turn) :
    ∃ e, visit f attempt requireSNI turn done u p =
      { p with
        breakers := p.breakers.insert u.key (breakerFor f.policy p.breakers u)
        lastErr := some e } := by
  unfold Passes at hr
  push Not at hr
  obtain ⟨hb, hr⟩ := hr
  rw [ne_eq, Bool.not_eq_true] at hr
  refine ⟨"forwarder: breaker open for ".toList ++ u.addr, ?_⟩
  rw [visit, if_neg (by simp [h.1]), if_neg h.2, if_pos hb]
  simp only [hr, Breaker.allow_refused hr]
  rfl

theorem visit_passes (h : Eligible f requireSNI u) (ha : Passes f p u turn) :
    visit f attempt requireSNI turn done u p = attemptOn f attempt done u
      { p with
        breakers := if f.breakerEnabled then
            p.breakers.insert u.key ((breakerFor f.policy p.breakers u).allow turn).1
          else p.breakers
        allowedAny := true } := by
  rw [visit, if_neg (by simp [h.1]), if_neg h.2]
  split_ifs with hb
  · simp only [ha hb, if_true]
  · rfl

theorem visit_resp (hp : p.resp = none) :
    (visit f attempt requireSNI turn done u p).resp.isSome = true ↔
      Eligible f requireSNI u ∧ Passes f p u turn ∧ Answers attempt u := by
  by_cases he : Eligible f requireSNI u
  · by_cases ha : Passes f p u turn
    · rw [visit_passes he ha, attemptOn_resp (by exact hp)]
      simp only [he, ha, true_and]
    · obtain ⟨e, h⟩ := @visit_refused f attempt _ _ done _ _ he ha
      simp only [h, hp, ha, Option.isSome_none, Bool.false_eq_true, false_and, and_false]
  · obtain ⟨e, h⟩ := @visit_skipped f attempt _ turn done _ p he
    simp only [h, hp, he, Option.isSome_none, Bool.false_eq_true, false_and]

theorem visit_allowedAny : (visit f attempt requireSNI turn done u p).allowedAny = true ↔
    p.allowedAny = true ∨ Eligible f requireSNI u ∧ Passes f p u turn := by
  by_cases he : Eligible f requireSNI u
  · by_cases ha : Passes f p u turn
    · simp only [visit_passes he ha, attemptOn_allowedAny, he, ha, and_self, or_true]
    · obtain ⟨e, h⟩ := @visit_refused f attempt _ _ done _ _ he ha
      simp only [h, ha, and_false, or_false]
  · obtain ⟨e, h⟩ := @visit_skipped f attempt _ turn done _ p he
    simp only [h, he, false_and, or_false]

theorem visit_breakers_of_refused (h : ¬ (Eligible f requireSNI u ∧ Passes f p u turn)) :
    breakerFor f.policy (visit f attempt requireSNI turn done u p).breakers v =
      breakerFor f.policy p.breakers v := by
  by_cases he : Eligible f requireSNI u
  · obtain ⟨e, hv⟩ := @visit_refused f attempt _ _ done _ _ he fun ha => h ⟨he, ha⟩
    rw [hv, breakerFor_insert]
    split_ifs with hk
    · rw [breakerFor, breakerFor, hk]
    · rfl
  · obtain ⟨e, hv⟩ := @visit_skipped f attempt _ turn done _ p he
    rw [hv]

theorem visit_breakers (hb : f.breakerEnabled = true) (hp : p.resp = none)
    (hn : (visit f attempt requireSNI turn done u p).resp = none) :
    breakerFor f.policy (visit f attempt requireSNI turn done u p).breakers v =
      if Eligible f requireSNI u ∧ u.key = v.key then
        (breakerFor f.policy p.breakers v).failedTurn turn done
      else breakerFor f.policy p.breakers v := by
  have hkey : u.key = v.key → breakerFor f.policy p.breakers u = breakerFor f.policy p.breakers v :=
    fun h => by rw [breakerFor, breakerFor, h]
  by_cases he : Eligible f requireSNI u
  · simp only [he, true_and, eq_comm (a := u.key)]
    by_cases ha : Passes f p u turn
    · have hna : ¬ Answers attempt u := fun h => by
        simpa [hn] using (@visit_resp f attempt _ _ done _ _ hp).mpr ⟨he, ha, h⟩
      obtain ⟨e, herr⟩ : ∃ e, attempt u = .error e := by
        rcases h : attempt u with e | m
        · exact ⟨e, rfl⟩
        · exact absurd ⟨m, h⟩ hna
      rw [visit_passes he ha, attemptOn]
      simp only [herr, hb, if_true, breakerFor_insert]
      split_ifs with h
      · rw [← hkey h.symm, Breaker.failedTurn]
        simp only [ha hb, if_true]
      · rfl
    · rw [visit_breakers_of_refused fun h => ha h.2]
      split_ifs with h
      · have hr : ((breakerFor f.policy p.breakers u).allow turn).2 = false := by
          simpa [Passes, hb] using ha
        rw [← hkey h.symm, Breaker.failedTurn]
        simp only [hr, Breaker.allow_refused hr, Bool.false_eq_true, if_false]
      · rfl
  · rw [visit_breakers_of_refused fun h => he h.1]
    simp only [he, false_and, if_false]

end Turns

section Passes

variable {i : ℕ} {u : Upstream} {us : List Upstream} {p : Pass}

theorem exists_turn_cons {P : ℕ → Upstream → Prop} :
    (∃ j v, (u :: us)[j]? = some v ∧ P j v) ↔
      P 0 u ∨ ∃ j v, us[j]? = some v ∧ P (j + 1) v := by
  constructor
  · rintro ⟨_ | j, v, hv, h⟩
    · obtain rfl : u = v := by simpa using hv
      exact Or.inl h
    · exact Or.inr ⟨j, v, by simpa using hv, h⟩
  · rintro (h | ⟨j, v, hv, h⟩)
    · exact ⟨0, u, rfl, h⟩
    · exact ⟨j + 1, v, by simpa using hv, h⟩

theorem passOver_cons {body : ℕ → Upstream → Pass → Pass} :
    passOver body i (u :: us) p =
      if (body i u p).resp.isSome = true then body i u p
      else passOver body (i + 1) us (body i u p) := rfl

/-- The first pass has a response iff some eligible upstream that answers is let through once
those before it have failed. -/
theorem firstPass_resp_iff (hp : p.resp = none) :
    (firstPass f attempt requireSNI clock i us p).resp.isSome = true ↔
      ∃ j u, us[j]? = some u ∧ (Eligible f requireSNI u ∧ Answers attempt u ∧
        (f.breakerEnabled = true → ((failedTurns f requireSNI clock u.key i (us.take j)
          (breakerFor f.policy p.breakers u)).allow (clock.turn (i + j))).2 = true)) := by
  induction us generalizing i p with
  | nil => simp [firstPass, passOver, hp]
  | cons u us ih =>
    rw [exists_turn_cons, firstPass, passOver_cons]
    have hhead := @visit_resp f attempt requireSNI (clock.turn i) (clock.done i) u p hp
    by_cases hr : (visit f attempt requireSNI (clock.turn i) (clock.done i) u p).resp.isSome = true
    · obtain ⟨he, hpass, ha⟩ := hhead.mp hr
      rw [if_pos hr]
      exact iff_of_true hr (Or.inl ⟨he, ha, hpass⟩)
    · have hn := Option.not_isSome_iff_eq_none.mp hr
      rw [if_neg hr, or_iff_right fun h => hr (hhead.mpr ⟨h.1, h.2.2, h.2.1⟩)]
      rw [← firstPass, ih hn]
      -- the breaker the rest of the pass starts from is the one after this failed turn
      refine exists_congr fun j => exists_congr fun v => and_congr_right fun _ =>
        and_congr_right fun _ => and_congr_right fun _ => forall_congr' fun hb => ?_
      rw [visit_breakers hb hp hn, List.take_succ_cons, failedTurns, Nat.add_right_comm,
        Nat.add_assoc]

theorem firstPass_allowedAny_mono (ha : p.allowedAny = true) :
    (firstPass f attempt requireSNI clock i us p).allowedAny = true := by
  induction us generalizing i p with
  | nil => exact ha
  | cons u us ih =>
    have hv := (@visit_allowedAny f attempt requireSNI (clock.turn i) (clock.done i) u p).mpr
      (Or.inl ha)
    rw [firstPass, passOver_cons]
    split_ifs
    · exact hv
    · exact ih hv

/-- The first pass attempts something iff some eligible upstream is let through by the breaker
it has at the start. -/
theorem firstPass_allowedAny_iff (hp : p.resp = none) (ha : p.allowedAny = false)
    (hb : f.breakerEnabled = true) :
    (firstPass f attempt requireSNI clock i us p).allowedAny = true ↔
      ∃ j u, us[j]? = some u ∧ (Eligible f requireSNI u ∧
        ((breakerFor f.policy p.breakers u).allow (clock.turn (i + j))).2 = true) := by
  induction us generalizing i p with
  | nil => simp [firstPass, passOver, ha]
  | cons u us ih =>
    rw [exists_turn_cons, Nat.add_zero, firstPass, passOver_cons]
    have hhead := @visit_allowedAny f attempt requireSNI (clock.turn i) (clock.done i) u p
    have hpass : Passes f p u (clock.turn i) ↔
        ((breakerFor f.policy p.breakers u).allow (clock.turn i)).2 = true := forall_prop_of_true hb
    rw [ha, hpass] at hhead
    simp only [Bool.false_eq_true, false_or] at hhead
    by_cases hv : Eligible f requireSNI u ∧
        ((breakerFor f.policy p.breakers u).allow (clock.turn i)).2 = true
    · refine iff_of_true ?_ (Or.inl hv)
      split_ifs
      · exact hhead.mpr hv
      · exact firstPass_allowedAny_mono (hhead.mpr hv)
    · have hnone : (visit f attempt requireSNI (clock.turn i) (clock.done i) u p).resp = none :=
        Option.not_isSome_iff_eq_none.mp fun h => by
          obtain ⟨he, hpa, -⟩ := (visit_resp hp).mp h
          exact hv ⟨he, hpass.mp hpa⟩
      rw [if_neg (by simp [hnone]), or_iff_right hv, ← firstPass,
        ih hnone (Bool.eq_false_iff.mpr fun h => hv (hhead.mp h))]
      refine exists_congr fun j => exists_congr fun v => and_congr_right fun _ =>
        and_congr_right fun _ => ?_
      rw [visit_breakers_of_refused fun h => hv ⟨h.1, hpass.mp h.2⟩, Nat.add_right_comm,
        Nat.add_assoc]

theorem visitForced_resp {done : Time} (hp : p.resp = none) :
    (visitForced f attempt requireSNI done u p).resp.isSome = true ↔
      Eligible f requireSNI u ∧ Answers attempt u := by
  rw [visitForced]
  split_ifs with h
  · refine iff_of_false (by simp [hp]) fun hu => ?_
    simp [hu.1.1, hu.1.2] at h
  · have he : Eligible f requireSNI u := by simpa [Eligible] using h
    rw [attemptOn_resp hp, and_iff_right he]

theorem forcedPass_resp_iff (hp : p.resp = none) :
    (forcedPass f attempt requireSNI clock i us p).resp.isSome = true ↔
      ∃ u ∈ us, Eligible f requireSNI u ∧ Answers attempt u := by
  induction us generalizing i p with
  | nil => simp [forcedPass, passOver, hp]
  | cons u us ih =>
    have hhead := @visitForced_resp f attempt requireSNI u p (clock.done i) hp
    rw [List.exists_mem_cons_iff, forcedPass, passOver_cons, ← hhead]
    split_ifs with hr
    · exact iff_of_true hr (Or.inl hr)
    · rw [or_iff_right hr]
      exact ih (Option.not_isSome_iff_eq_none.mp hr)

end Passes

section Failover

variable {first forced : Clock} {ups : List Upstream}

theorem firstPass_resp_iff_admitsAt (hb : f.breakerEnabled = true) :
    (firstPass f attempt requireSNI first 0 ups { breakers := f.breakers }).resp.isSome = true ↔
      ∃ i u, ups[i]? = some u ∧ Eligible f requireSNI u ∧ Answers attempt u ∧
        AdmitsAt f requireSNI first ups i u := by
  rw [firstPass_resp_iff rfl]
  simp only [hb, forall_const, Nat.zero_add, AdmitsAt]

theorem tryAll_of_resp
    (h : (firstPass f attempt requireSNI first 0 ups
      { breakers := f.breakers }).resp.isSome = true) :
    (tryAll f attempt requireSNI first forced ups).resp.isSome = true := by
  rw [tryAll, if_neg]
  · exact h
  · simp [Option.isNone_iff_eq_none, Option.isSome_iff_ne_none.mp h]

/-- When some eligible upstream answers, the failover succeeds iff there are no breakers, some
eligible upstream that answers is let through at its turn, or none that is eligible is. -/
theorem tryAll_succeeds_iff (f : Forwarder) (attempt : Attempt) (requireSNI : Bool)
    (first forced : Clock) (ups : List Upstream)
    (hans : ∃ u ∈ ups, Eligible f requireSNI u ∧ Answers attempt u) :
    (tryAll f attempt requireSNI first forced ups).resp.isSome = true ↔
      f.breakerEnabled = false ∨
      (∃ i u, ups[i]? = some u ∧ Eligible f requireSNI u ∧ Answers attempt u ∧
        AdmitsAt f requireSNI first ups i u) ∨
      ∀ i u, ups[i]? = some u → Eligible f requireSNI u → ¬ Admits f u (first.turn i) := by
  rcases hb : f.breakerEnabled with _ | _
  · refine iff_of_true (tryAll_of_resp ((firstPass_resp_iff rfl).mpr ?_)) (Or.inl rfl)
    obtain ⟨u, hu, he, ha⟩ := hans
    obtain ⟨i, hi⟩ := List.mem_iff_getElem?.mp hu
    exact ⟨i, u, hi, he, ha, by simp [hb]⟩
  · rw [← firstPass_resp_iff_admitsAt hb, or_iff_right Bool.noConfusion]
    by_cases hr : (firstPass f attempt requireSNI first 0 ups
        { breakers := f.breakers }).resp.isSome = true
    · exact iff_of_true (tryAll_of_resp hr) (Or.inl hr)
    have hnone := Option.not_isSome_iff_eq_none.mp hr
    have hallowed := @firstPass_allowedAny_iff f attempt requireSNI first 0 ups
      { breakers := f.breakers } rfl rfl hb
    simp only [Nat.zero_add] at hallowed
    rw [or_iff_right hr, tryAll]
    simp only [hnone, hb, Option.isNone_none, Bool.and_self, Bool.true_and, Bool.not_eq_true']
    split_ifs with ha
    · refine iff_of_true ((forcedPass_resp_iff hnone).mpr hans) fun i u hi he hadm => ?_
      rw [hallowed.mpr ⟨i, u, hi, he, hadm⟩] at ha
      exact Bool.noConfusion ha
    · obtain ⟨i, u, hi, he, hadm⟩ := hallowed.mp (Bool.not_eq_false _ ▸ ha)
      exact iff_of_false hr fun h => h i u hi he hadm

end Failover

section Outage

def primary : Upstream := { addr := "192.0.2.1:53".toList, net := "udp".toList }

def secondary : Upstream := { addr := "192.0.2.2:53".toList, net := "udp".toList }

/-- The secondary tripped a moment ago, and the primary has not failed yet. -/
def secondaryTripped : Forwarder where
  policy := defaultPolicy
  breakers := Map.ofList [(secondary.key, (newBreaker defaultPolicy).trip 0)]

def onlySecondary : Attempt := fun u => if u = secondary then .ok {} else .error "timeout".toList

def atOnce : Clock := { turn := fun _ => second, done := fun _ => second }

/-- The primary is tried and fails, and the secondary is not asked although it would answer. -/
theorem tryAll_leaves_secondary_unasked :
    (Eligible secondaryTripped false secondary ∧ onlySecondary secondary = .ok {}) ∧
      (tryAll secondaryTripped onlySecondary false atOnce atOnce [primary, secondary]).resp = none ∧
      (tryAll { secondaryTripped with breakerEnabled := false } onlySecondary false atOnce atOnce
        [primary, secondary]).resp = some {} := by
  decide

/-- With the secondary alone nothing is let through, and it is asked in the second pass. -/
theorem tryAll_succeeds_iff_alone :
    (tryAll secondaryTripped onlySecondary false atOnce atOnce [secondary]).resp.isSome = true :=
  (tryAll_succeeds_iff secondaryTripped onlySecondary false atOnce atOnce [secondary]
    ⟨secondary, List.mem_singleton_self _, by decide, {}, rfl⟩).mpr <|
      Or.inr <| Or.inr <| by
        intro i u hi he
        obtain ⟨rfl, rfl⟩ : i = 0 ∧ secondary = u := by
          rcases i with _ | i
          · exact ⟨rfl, by simpa using hi⟩
          · simp at hi
        decide

end Outage

end SplitDNS.Forwarder
