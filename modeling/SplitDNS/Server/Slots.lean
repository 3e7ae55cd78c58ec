import SplitDNS.Server.Serving

/-! # Slots

The limiter counts the calls that hold a place and the other semaphore those that
wait for a host, in every interleaving. A call that waits has given its place back
and goes on without one, so that waits, however many, keep no query out. No call
is ever stuck on a semaphore, and each is over after a bounded number of its own
steps.
-/

namespace SplitDNS.Server.Serving

open Go Go.Netip Dns Model Resolver

/-- The variables of a call fit the place where it is. -/
def Call.Fits (c : Call) : Prop :=
  match c.phase with
  | .arrived => c.deferred = false ∧ c.holdSem = true
  | .admitted | .viewing _ | .missed _ _ => c.deferred = true ∧ c.holdSem = true
  | .asking _ _ | .waiting _ | .waited _ => c.holdSem = false
  | _ => True

def Phase.left : Phase → ℕ
  | .arrived => 12
  | .admitted => 11
  | .viewing _ => 10
  | .missed _ _ => 9
  | .asking _ _ => 8
  | .waiting _ => 7
  | .waited _ => 6
  | .acting _ _ => 5
  | .stubbing _ | .upstream _ _ => 4
  | .answered _ _ _ => 3
  | .returning => 2
  | .released => 1
  | .done => 0

section Moves

variable {f : Setup} {i : ℕ} {s s' : Shared} {c c' : Call}

theorem Call.Fits.not_busy (hfits : c.Fits) (h : c.waits = true) : c.busy = false := by
  unfold Call.waits at h
  split at h
  · rename_i hphase
    unfold Call.Fits at hfits
    rw [hphase] at hfits
    simp [Call.busy, hfits]
  · cases h

theorem fits_of_moves (hfits : c.Fits) (h : Moves f i s c s' c') : c'.Fits := by
  cases h with
  | enter hphase | load hphase | miss _ hphase | leave hphase | degrade hphase
    | solicit hphase | wake hphase =>
    unfold Call.Fits at hfits
    simp_all [Call.Fits]
  | _ => trivial

theorem sem_of_moves (hfits : c.Fits) (h : Moves f i s c s' c') :
    s'.sem + (if c.busy then 1 else 0) = s.sem + if c'.busy then 1 else 0 := by
  unfold Call.Fits at hfits
  cases h with
  | overflow hphase =>
    split_ifs <;> simp_all [Call.busy, Shared.write, Shared.logged]
  | leave hphase hsem | release hphase _ hsem =>
    simp_all [Call.busy]
    omega
  | fail _ _ hphase =>
    rcases hphase with ⟨snap, out, hphase⟩ | ⟨snap, hphase⟩ <;>
      simp_all [Call.busy, Shared.write, Shared.logged]
  | resolve hphase =>
    rcases hphase with hphase | hphase <;> simp_all [Call.busy]
  | pass hphase hfree =>
    rw [not_and, Bool.not_eq_true] at hfree
    cases hd : c.deferred <;> simp_all [Call.busy]
  | _ => simp_all [Call.busy, Shared.write, Shared.logged]

theorem odSem_of_moves (h : Moves f i s c s' c') :
    s'.odSem + (if c.waits then 1 else 0) = s.odSem + if c'.waits then 1 else 0 := by
  cases h with
  | overflow hphase =>
    split_ifs <;> simp_all [Call.waits, Shared.write, Shared.logged]
  | wake hphase hsem =>
    simp_all [Call.waits]
    omega
  | fail _ _ hphase =>
    rcases hphase with ⟨snap, out, hphase⟩ | ⟨snap, hphase⟩ <;>
      simp_all [Call.waits, Shared.write, Shared.logged]
  | resolve hphase =>
    rcases hphase with hphase | hphase <;> simp_all [Call.waits]
  | _ => simp_all [Call.waits, Shared.write, Shared.logged]

theorem bounded_of_moves (hsem : s.sem ≤ f.limit) (hod : s.odSem ≤ odWaiters)
    (h : Moves f i s c s' c') : s'.sem ≤ f.limit ∧ s'.odSem ≤ odWaiters := by
  cases h with
  | enter _ hfree => exact ⟨hfree, hod⟩
  | solicit _ hfree => exact ⟨hsem, hfree⟩
  | leave | release => exact ⟨(Nat.sub_le _ _).trans hsem, hod⟩
  | wake => exact ⟨hsem, (Nat.sub_le _ _).trans hod⟩
  | overflow =>
    split_ifs
    · exact ⟨hsem, hod⟩
    · exact ⟨hsem, hod⟩
  | _ => exact ⟨hsem, hod⟩

theorem left_of_moves (h : Moves f i s c s' c') : c'.phase.left < c.phase.left := by
  cases h with
  | fail _ _ hphase =>
    rcases hphase with ⟨snap, out, hphase⟩ | ⟨snap, hphase⟩ <;> simp [hphase, Phase.left]
  | resolve hphase =>
    rcases hphase with hphase | hphase <;> simp [hphase, Phase.left]
  | refuse hphase | overflow hphase | enter hphase | load hphase | miss _ hphase | leave hphase
    | solicit hphase | degrade hphase | wake hphase | reply hphase | stub hphase
    | stubbed _ hphase | hit hphase | forward hphase | answer _ hphase | finish hphase
    | release hphase | pass hphase | record _ hphase =>
    simp [hphase, Phase.left]

end Moves

namespace System

variable {f : Setup} {s s' : System}

structure Counted (f : Setup) (s : System) : Prop where
  fits : ∀ c ∈ s.calls, c.Fits
  sem : s.shared.sem = s.calls.countP Call.busy
  odSem : s.shared.odSem = s.calls.countP Call.waits
  sem_le : s.shared.sem ≤ f.limit
  odSem_le : s.shared.odSem ≤ odWaiters

theorem Counted.step (h : Counted f s) (hs : Steps f s s') : Counted f s' := by
  cases hs with
  | query remote label req start =>
    refine ⟨fun c hc => ?_, ?_, ?_, h.sem_le, h.odSem_le⟩
    · rcases List.mem_append.mp hc with hc | hc
      · exact h.fits c hc
      · rw [List.mem_singleton.mp hc]
        exact ⟨rfl, rfl⟩
    · simp [h.sem, Call.busy]
    · simp [h.odSem, Call.waits]
  | control snapshot view cache => exact ⟨h.fits, h.sem, h.odSem, h.sem_le, h.odSem_le⟩
  | @act i c c' sh hc hmoves =>
    have hfits := h.fits c (List.mem_of_getElem? hc)
    obtain ⟨hsem, hod⟩ := bounded_of_moves h.sem_le h.odSem_le hmoves
    refine ⟨fun c₁ hc₁ => ?_, ?_, ?_, hsem, hod⟩
    · rcases List.mem_or_eq_of_mem_set hc₁ with hc₁ | rfl
      · exact h.fits c₁ hc₁
      · exact fits_of_moves hfits hmoves
    · have hmove := sem_of_moves hfits hmoves
      have hcount := countP_set (p := Call.busy) (b := c') hc
      have hbefore := h.sem
      dsimp only at hmove ⊢
      omega
    · have hmove := odSem_of_moves hmoves
      have hcount := countP_set (p := Call.waits) (b := c') hc
      have hbefore := h.odSem
      dsimp only at hmove ⊢
      omega

theorem counted_of_run {cache : Option Anscache.Cache} {es : List Event}
    (h : Runs.run (step f) (init cache) es = some s) : Counted f s := by
  refine Runs.inv_of_steps ?_ (fun _ _ _ hi hs => hi.step (steps_of_step hs)) h
  exact ⟨by simp [init], by simp [init], by simp [init], Nat.zero_le _, Nat.zero_le _⟩

theorem act_of_getElem? {i : ℕ} {c : Call} (hc : s.calls[i]? = some c)
    (sec : Shared → Call → Option (Shared × Call)) :
    s.act i sec = (sec s.shared c).map fun p => ⟨p.1, s.calls.set i p.2⟩ := by
  rw [act, hc]

theorem ne_zero_of_countP {p : Call → Bool} {n i : ℕ} {c : Call} (hn : n = s.calls.countP p)
    (hc : s.calls[i]? = some c) (hp : p c = true) : n ≠ 0 := by
  rw [hn]
  exact (List.countP_pos_iff.mpr ⟨c, List.mem_of_getElem? hc, hp⟩).ne'

theorem Counted.enabled (h : Counted f s) {i : ℕ} {c : Call} (hc : s.calls[i]? = some c)
    (hphase : c.phase ≠ .done) : ∃ e : Event, e.of i = true ∧ (s.step f e).isSome = true := by
  have hfits := h.fits c (List.mem_of_getElem? hc)
  cases hp : c.phase with
  | done => exact absurd hp hphase
  | waiting snap =>
    have hsem := ne_zero_of_countP h.odSem hc (by simp [Call.waits, hp])
    refine ⟨.wake i, by simp [Event.of], ?_⟩
    simp [System.step, act_of_getElem? hc, wake, hp, hsem]
  | stubbing snap | upstream snap p =>
    refine ⟨.answer i (.ok none), by simp [Event.of], ?_⟩
    simp [System.step, act_of_getElem? hc, answer, hp]
  | missed snap label =>
    unfold Call.Fits at hfits
    rw [hp] at hfits
    have hsem := ne_zero_of_countP h.sem hc (by simp [Call.busy, hp, hfits])
    refine ⟨.work i 0, by simp [Event.of], ?_⟩
    simp [System.step, act_of_getElem? hc, work, hp, hsem]
  | returning =>
    refine ⟨.work i 0, by simp [Event.of], ?_⟩
    simp only [System.step, act_of_getElem? hc, work, hp]
    split_ifs with hheld hsem
    · have hbusy : c.busy = true := by
        simp only [Call.busy, hp, Bool.and_true]
        exact hheld
      exact absurd hsem (ne_zero_of_countP h.sem hc hbusy)
    · rfl
    · rfl
  | viewing snap | asking snap label =>
    refine ⟨.work i 0, by simp [Event.of], ?_⟩
    simp only [System.step, act_of_getElem? hc, work, hp]
    split_ifs <;> rfl
  | arrived | admitted | waited snap | acting snap out | answered snap p resp | released =>
    refine ⟨.work i 0, by simp [Event.of], ?_⟩
    simp [System.step, act_of_getElem? hc, work, hp]

/-- In every interleaving, the limiter counts exactly the calls that hold a place, never more than
it may, the other semaphore counts exactly those that wait for a host, never more than the fixed
number, and no call is counted twice. A query that the policy lets through is given a place exactly
if fewer calls hold one at that moment than may, whoever waits. When all calls have returned, both
semaphores are empty. -/
theorem slots_exact {cache : Option Anscache.Cache} {es : List Event}
    (h : Runs.run (step f) (init cache) es = some s) :
    (s.shared.sem = s.calls.countP Call.busy ∧ s.shared.sem ≤ f.limit) ∧
    (s.shared.odSem = s.calls.countP Call.waits ∧ s.shared.odSem ≤ odWaiters) ∧
    (∀ c ∈ s.calls, c.waits = true → c.busy = false) ∧
    (∀ i c now, s.calls[i]? = some c → c.phase = .arrived →
      (clientIP c.remote).isValid = false ∨ f.access.allowed (clientIP c.remote) = true →
      ∃ s' c', s.step f (.work i now) = some s' ∧ s'.calls[i]? = some c' ∧
        (c'.busy = true ↔ s.calls.countP Call.busy < f.limit)) ∧
    ((∀ c ∈ s.calls, c.phase = .done) → s.shared.sem = 0 ∧ s.shared.odSem = 0) := by
  have hinv := counted_of_run h
  refine ⟨⟨hinv.sem, hinv.sem_le⟩, ⟨hinv.odSem, hinv.odSem_le⟩,
    fun c hc hw => (hinv.fits c hc).not_busy hw, fun i c now hc hphase hallowed => ?_,
    fun hdone => ?_⟩
  · have hlt := (List.getElem?_eq_some_iff.mp hc).1
    refine ⟨⟨(enter f i s.shared c).1, s.calls.set i (enter f i s.shared c).2⟩,
      (enter f i s.shared c).2, ?_, ?_, ?_⟩
    · simp [System.step, act_of_getElem? hc, work, hphase]
    · simp [hlt]
    · have hfits := hinv.fits c (List.mem_of_getElem? hc)
      unfold Call.Fits at hfits
      rw [hphase] at hfits
      have hpass :
          ((clientIP c.remote).isValid && !f.access.allowed (clientIP c.remote)) = false := by
        rcases hallowed with hv | ha <;> simp [*]
      rw [← hinv.sem]
      unfold enter
      rw [if_neg (by simp [hpass])]
      split_ifs with hfree htcp <;> simp [Call.busy, fail, hfits, hfree]
  · rw [hinv.sem, hinv.odSem, List.countP_eq_zero, List.countP_eq_zero]
    exact ⟨fun c hc => by simp [Call.busy, hdone c hc],
      fun c hc => by simp [Call.waits, hdone c hc]⟩

/-- Two queries over UDP come in, and the first has a place. -/
def twoQueries : List Event :=
  [.query (.udp [10, 0, 0, 1]) none (ask "example.com.".toList typeA) 0,
    .query (.udp [10, 0, 0, 2]) none (ask "example.com.".toList typeA) 0, .work 0 0]

/-- The second of two queries gets no place while the first one has the only one. -/
theorem slots_exact_full :
    ∃ s s' c', Runs.run (step oneAtATime) (init none) twoQueries = some s ∧
      s.step oneAtATime (.work 1 0) = some s' ∧ s'.calls[1]? = some c' ∧ c'.busy = false := by
  obtain ⟨s, hs, hmap⟩ := Option.map_eq_some_iff.mp (show
    (Runs.run (step oneAtATime) (init none) twoQueries).map (fun s => (s.calls.countP Call.busy,
      s.calls[1]?.map fun c => (c.remote, c.phase.left))) =
        some (1, some (.udp [10, 0, 0, 2], 12)) by decide +kernel)
  obtain ⟨hbusy, hsecond⟩ := Prod.mk.inj hmap
  obtain ⟨c, hc, hparts⟩ := Option.map_eq_some_iff.mp hsecond
  obtain ⟨hremote, hleft⟩ := Prod.mk.inj hparts
  have harrived : c.phase = .arrived := by
    cases hp : c.phase <;> simp_all [Phase.left]
  obtain ⟨-, -, -, hserved, -⟩ := slots_exact hs
  obtain ⟨s', c', hstep, hc', hiff⟩ := hserved 1 c 0 hc harrived
    (.inr (by rw [hremote]; decide +kernel))
  refine ⟨s, s', c', hs, hstep, hc', Bool.eq_false_iff.mpr fun hbusy' => ?_⟩
  have hlt := hiff.mp hbusy'
  rw [hbusy] at hlt
  exact absurd hlt (by decide)

section Finish

variable {es : List Event} {e : Event} {i j : ℕ}

structure Spent (es : List Event) (s : System) : Prop where
  left : ∀ i c, s.calls[i]? = some c → es.countP (Event.of i) + c.phase.left ≤ 12
  absent : ∀ i, s.calls.length ≤ i → es.countP (Event.of i) = 0

theorem countP_of_concat (es : List Event) (e : Event) (i : ℕ) :
    (es ++ [e]).countP (Event.of i) = es.countP (Event.of i) + if e.of i then 1 else 0 := by
  rw [List.countP_append, List.countP_singleton]

theorem Spent.act {c c' : Call} {sh : Shared} (h : Spent es s) (hof : ∀ i, e.of i = true ↔ i = j)
    (hc : s.calls[j]? = some c) (hmoves : Moves f j s.shared c sh c') :
    Spent (es ++ [e]) ⟨sh, s.calls.set j c'⟩ := by
  refine ⟨fun i c₁ hc₁ => ?_, fun i hi => ?_⟩
  · rw [countP_of_concat]
    rcases getElem?_set_eq_some hc₁ with ⟨rfl, rfl⟩ | ⟨hne, hc₁⟩
    · have hbefore := h.left j c hc
      have hless := left_of_moves hmoves
      split_ifs <;> omega
    · rw [if_neg fun he => hne ((hof i).mp he).symm]
      exact h.left i c₁ hc₁
  · rw [List.length_set] at hi
    have hlt := (List.getElem?_eq_some_iff.mp hc).1
    rw [countP_of_concat, h.absent i hi, if_neg fun he => ?_]
    have := (hof i).mp he
    omega

theorem Spent.other (h : Spent es s) (hof : ∀ i, e.of i = false) : Spent (es ++ [e]) s := by
  refine ⟨fun i c hc => ?_, fun i hi => ?_⟩
  · simpa [countP_of_concat, hof] using h.left i c hc
  · simpa [countP_of_concat, hof] using h.absent i hi

theorem Spent.step (h : Spent es s) (hs : s.step f e = some s') : Spent (es ++ [e]) s' := by
  cases e with
  | query remote label req start =>
    cases hs
    refine Spent.other ⟨fun i c hc => ?_, fun i hi => ?_⟩ (fun _ => rfl)
    · rcases getElem?_concat_eq_some hc with hc | ⟨rfl, rfl⟩
      · exact h.left i c hc
      · rw [h.absent _ le_rfl]
        exact le_rfl
    · rw [List.length_append] at hi
      exact h.absent i (by omega)
  | publishSnapshot | publishView | flush =>
    cases hs
    exact Spent.other ⟨h.left, h.absent⟩ fun _ => rfl
  | work j _ | wake j | answer j _ =>
    obtain ⟨c, sh, c', hc, hmoves, rfl⟩ := exists_moves (i := j) (by simp [Event.of]) hs
    exact h.act (by simp [Event.of]) hc hmoves

/-- In every interleaving a call takes at most twelve steps, those that its replies and wake-ups
come with included, and until it has returned its next step is enabled: no call waits for a
semaphore, and none is lost. -/
theorem calls_finish {cache : Option Anscache.Cache}
    (h : Runs.run (step f) (init cache) es = some s) {c : Call} (hc : s.calls[i]? = some c) :
    es.countP (Event.of i) + c.phase.left ≤ 12 ∧
      (c.phase ≠ .done → ∃ e : Event, e.of i = true ∧ (s.step f e).isSome = true) := by
  have hspent : Spent es s := by
    refine @Runs.inv_of_run _ _ _ _ _ _ Spent (fun _ _ _ => True) ⟨?_, fun _ _ => rfl⟩
      (fun _ _ _ _ hi _ hs => hi.step hs) (fun _ _ _ _ _ _ => trivial) h
    simp [init]
  exact ⟨hspent.left i c hc, (counted_of_run h).enabled hc⟩

/-- A query that is not served yet can still go on, whatever the limiter says. -/
theorem calls_finish_waiting_query :
    ∃ s e, Runs.run (step oneAtATime) (init none) twoQueries = some s ∧ Event.of 1 e = true ∧
      (s.step oneAtATime e).isSome = true := by
  obtain ⟨s, hs, hmap⟩ := Option.map_eq_some_iff.mp (show
    (Runs.run (step oneAtATime) (init none) twoQueries).map
      (fun s => s.calls[1]?.map fun c => c.phase.left) = some (some 12) by decide +kernel)
  obtain ⟨c, hc, hleft⟩ := Option.map_eq_some_iff.mp hmap
  obtain ⟨e, he, hstep⟩ := (calls_finish hs hc).2 fun hdone => by simp [hdone, Phase.left] at hleft
  exact ⟨s, e, hs, he, hstep⟩

end Finish

end System

end SplitDNS.Server.Serving
