import SplitDNS.Forwarder.Ledger
import SplitDNS.Forwarder.Probes

/-! # What the diagnostics say about an upstream

The counters of an upstream and the state of its breaker, as `Backends` reports
them. A breaker that no call has passed and not yet reported to lets the next call
through exactly if no cooldown is reported.
-/

namespace SplitDNS.Forwarder

open Go Dns

inductive Role where
  | primary
  | fallback
  deriving DecidableEq, Repr

/-- What is reported of a breaker; `none` where breakers are off. -/
structure BreakerStatus where
  state : CbState := .closed
  consec : ℕ := 0
  ratio : ℚ := 0
  openFor : Duration := 0
  cooldown : Duration := 0

structure BackendStatus where
  u : Upstream
  role : Role
  breaker : Option BreakerStatus := none
  healthy : Bool := true
  disabled : Bool := false
  queries : ℕ
  failures : ℕ
  avgRTT : Duration
  lastRTT : Duration

def Breaker.status (b : Breaker) (t : Time) : BreakerStatus :=
  let ok := (b.buckets.map Bucket.ok).sum
  let fail := (b.buckets.map Bucket.fail).sum
  let ratio : ℚ := if 0 < ok + fail then fail / (ok + fail : ℕ) else 0
  match b.state with
  | .tripped =>
    { state := .tripped, consec := b.consec, ratio, openFor := t - b.openedAt,
      cooldown := max (b.pol.cooldown - (t - b.openedAt)) 0 }
  | .halfOpen => { state := .halfOpen, consec := b.consec, ratio, openFor := t - b.openedAt }
  | .closed => { state := .closed, consec := b.consec, ratio }

def backendStatus (f : Setup) (s : Shared) (role : Role) (u : Upstream) : BackendStatus :=
  let (queries, failures, avgRTT, lastRTT) := s.statSnapshot u
  if u.addr ∈ s.disabled then
    { u, role, healthy := false, disabled := true, queries, failures, avgRTT, lastRTT }
  else if f.breakerEnabled then
    let status := ((s.breakers.lookup u.key).map fun b => b.status s.now).getD {}
    { u, role, breaker := some status, healthy := status.state ≠ .tripped
      queries, failures, avgRTT, lastRTT }
  else { u, role, queries, failures, avgRTT, lastRTT }

def backends (f : Setup) (s : Shared) : List BackendStatus :=
  f.primary.map (backendStatus f s .primary) ++
    if f.cleartext then f.fallback.map (backendStatus f s .fallback) else []

theorem u_backendStatus (f : Setup) (s : Shared) (role : Role) (u : Upstream) :
    (backendStatus f s role u).u = u := by
  simp only [backendStatus]
  split_ifs <;> rfl

theorem exists_of_mem_backends {f : Setup} {s : Shared} {b : BackendStatus}
    (h : b ∈ backends f s) : ∃ role, b = backendStatus f s role b.u := by
  rcases List.mem_append.mp h with h | h
  · obtain ⟨u, -, rfl⟩ := List.mem_map.mp h
    exact ⟨.primary, by rw [u_backendStatus]⟩
  · split_ifs at h
    · obtain ⟨u, -, rfl⟩ := List.mem_map.mp h
      exact ⟨.fallback, by rw [u_backendStatus]⟩
    · cases h

/-- What is reported tells whether the breaker would let a call through now. -/
def BackendStatus.Predicts (f : Setup) (s : Shared) (b : BackendStatus) : Prop :=
  ∃ st, b.breaker = some st ∧ st.state ≠ .halfOpen ∧
    (((breakerFor f.policy s.breakers b.u).allow s.now).2 = true ↔ st.cooldown = 0)

/-- The call was let through by the breaker under a key and has not reported to it. -/
def Query.holds (key : Str) (q : Query) : Bool :=
  match q.pc with
  | .exchange u _ | .waiting u _ _ | .retrying u _ _ _ | .note u _ _ _ | .record u _ _ =>
    !q.forced && u.key = key
  | _ => false

/-- The breaker under a key has gone through the calls of `allow` and `record` of some run, and as
many of its requests are outstanding as calls hold it. -/
def Probed (f : Setup) (breakers : Map Str Breaker) (key : Str) (holding : ℕ) : Prop :=
  ∃ (p : Probing) (es : List BreakerEvent),
    Runs.run Probing.step ⟨newBreaker f.policy, 0, [], 0⟩ es = some p ∧
      p.breaker = (breakers.lookup key).getD (newBreaker f.policy) ∧
      p.outstanding.length = holding

variable {f : Setup} {i : ℕ} {s s' : Shared} {q q' : Query} {key : Str} {n : ℕ}

theorem Probed.step {breakers' : Map Str Breaker} {n' : ℕ} {p p' : Probing}
    {es : List BreakerEvent} {e : BreakerEvent}
    (hrun : Runs.run Probing.step ⟨newBreaker f.policy, 0, [], 0⟩ es = some p)
    (hstep : p.step e = some p')
    (hb : p'.breaker = (breakers'.lookup key).getD (newBreaker f.policy))
    (hn : p'.outstanding.length = n') : Probed f breakers' key n' := by
  refine ⟨p', es ++ [e], ?_, hb, hn⟩
  rw [Runs.run_concat, hrun]
  exact hstep

theorem breakers_send (s : Shared) (i : ℕ) (name : Str) (stage : Stage) (u : Upstream) :
    (s.send i name stage u).breakers = s.breakers := by
  unfold Shared.send Shared.clientFor
  split <;> rfl

theorem Probed.of_ne (h : Probed f s.breakers key n) {u : Upstream} (hne : u.key ≠ key)
    (b : Breaker) : Probed f (s.setBreaker u b).breakers key n := by
  obtain ⟨p, es, hrun, hb, hn⟩ := h
  refine ⟨p, es, hrun, ?_, hn⟩
  rw [Shared.setBreaker, Map.lookup_insert_eq_ite, if_neg hne.symm]
  exact hb

theorem lookup_setBreaker (s : Shared) (u : Upstream) (b d : Breaker) :
    ((s.setBreaker u b).breakers.lookup u.key).getD d = b := by
  rw [Shared.setBreaker, Map.lookup_insert_eq_ite, if_pos rfl]
  rfl

theorem exists_step_allow (p : Probing) (now : Time) :
    ∃ p', p.step (.allow now) = some p' ∧ p'.breaker = (p.breaker.allow now).1 ∧
      p'.outstanding.length =
        p.outstanding.length + if (p.breaker.allow now).2 then 1 else 0 := by
  cases hallow : p.breaker.allow now with
  | mk b ok =>
    simp only [Probing.step, hallow]
    refine ⟨_, rfl, rfl, ?_⟩
    cases ok <;> simp

theorem Probed.allow {u : Upstream} (h : Probed f s.breakers u.key n) :
    Probed f (s.setBreaker u ((breakerFor f.policy s.breakers u).allow s.now).1).breakers u.key
      (n + if ((breakerFor f.policy s.breakers u).allow s.now).2 then 1 else 0) := by
  obtain ⟨p, es, hrun, hb, hn⟩ := h
  change p.breaker = breakerFor f.policy s.breakers u at hb
  obtain ⟨p', hstep, hb', hn'⟩ := exists_step_allow p s.now
  refine Probed.step hrun hstep ?_ ?_
  · rw [lookup_setBreaker, hb', hb]
  · rw [hn', hn, hb]

theorem Probed.record {u : Upstream} (h : Probed f s.breakers u.key (n + 1)) (ok : Bool) :
    Probed f (s.setBreaker u ((breakerFor f.policy s.breakers u).record s.now ok)).breakers u.key
      n := by
  obtain ⟨p, es, hrun, hb, hn⟩ := h
  obtain ⟨r, hr⟩ := List.exists_mem_of_length_pos (by omega : 0 < p.outstanding.length)
  refine Probed.step hrun (e := .record r s.now ok)
    (if_pos ⟨hr, Probing.ends_of_policy hrun s.now⟩) ?_ ?_
  · rw [lookup_setBreaker]
    exact congrArg (fun b => b.record s.now ok) hb
  · rw [List.length_erase_of_mem hr]
    omega

theorem Probed.forced {u : Upstream} (h : Probed f s.breakers u.key n) (ok : Bool) :
    Probed f (s.setBreaker u ((breakerFor f.policy s.breakers u).record s.now ok)).breakers u.key
      n := by
  obtain ⟨p, es, hrun, hb, hn⟩ := h
  refine Probed.step hrun (e := .forced s.now ok) (if_pos (Probing.ends_of_policy hrun s.now)) ?_ hn
  rw [lookup_setBreaker]
  exact congrArg (fun b => b.record s.now ok) hb

theorem Probed.moves (hon : f.breakerEnabled = true) (ho : q.Orderly)
    (h : Probed f s.breakers key (n + if q.holds key then 1 else 0)) (hm : Moves f i s q s' q') :
    Probed f s'.breakers key (n + if q'.holds key then 1 else 0) := by
  have hbegan := ho.began
  cases hm with
  | skip _ hpc | guarded hpc | again hpc | giveUp _ hpc =>
    simpa [Query.holds, Query.skip, hpc] using h
  | downgrade _ hpc => simpa [Query.holds, hpc, Shared.logged] using h
  | forced hpc _ _ hpass => simpa [Query.holds, hpc, hpass] using h
  | unguarded _ _ _ _ hoff | unrecorded _ hoff => simp [hon] at hoff
  | @refused u _ _ hpc hrefused =>
    have hq : q.holds key = false := by simp [Query.holds, hpc]
    rw [hq] at h
    by_cases hkey : u.key = key
    · subst hkey
      simpa [Query.holds, Query.skip, hrefused] using h.allow
    · exact Probed.of_ne (by simpa [Query.holds, Query.skip] using h) hkey _
  | @allowed u _ hpc hallowed =>
    rw [hpc] at hbegan
    have hq : q.holds key = false := by simp [Query.holds, hpc]
    rw [hq] at h
    by_cases hkey : u.key = key
    · subst hkey
      simpa [Query.holds, hallowed, hbegan] using h.allow
    · exact Probed.of_ne (by simpa [Query.holds, hkey] using h) hkey _
  | send hpc | truncated _ hpc =>
    rw [breakers_send]
    simpa [Query.holds, hpc] using h
  | answered _ hpc | retried _ hpc => simpa [Query.holds, hpc] using h
  | note hpc => simpa [Query.holds, hpc, Shared.noteAttempt, Shared.logged] using h
  | @record u rest out hpc =>
    have hq' : (q.settle rest out).holds key = false := by cases out <;> rfl
    rw [hq']
    by_cases hkey : u.key = key
    · subst hkey
      cases hforced : q.forced with
      | true => exact Probed.forced (by simpa [Query.holds, hpc, hforced] using h) _
      | false => exact Probed.record (by simpa [Query.holds, hpc, hforced] using h) _
    · exact Probed.of_ne (by simpa [Query.holds, hpc, hkey] using h) hkey _

namespace System

def holding (s : System) (key : Str) : ℕ := s.queries.countP (Query.holds key)

variable {s s' : System}

theorem probed_of_step (hon : f.breakerEnabled = true) (ho : ∀ q ∈ s.queries, q.Orderly)
    (h : Probed f s.shared.breakers key (s.holding key)) (hs : Steps f s s') :
    Probed f s'.shared.breakers key (s'.holding key) := by
  cases hs with
  | elapse | switch => exact h
  | call q _ hpc =>
    have hnone : q.holds key = false := by rw [Query.holds, hpc]
    simpa [holding, hnone] using h
  | @act _ q q' _ hq hm =>
    have hset := @countP_set _ _ _ (Query.holds key) _ q' hq
    have hpos : q.holds key = true → 1 ≤ s.holding key := fun hq' =>
      List.one_le_countP_iff.mpr ⟨q, List.mem_of_getElem? hq, hq'⟩
    simp only [holding] at h hpos ⊢
    obtain ⟨n, hn⟩ : ∃ n, s.queries.countP (Query.holds key) =
        n + if q.holds key then 1 else 0 := by
      split_ifs with hq'
      · exact ⟨_, (Nat.sub_add_cancel (hpos hq')).symm⟩
      · exact ⟨_, rfl⟩
    rw [hn] at h hset
    have hnext := h.moves hon (ho q (List.mem_of_getElem? hq)) hm
    convert hnext using 1
    omega

theorem probed_of_run (hon : f.breakerEnabled = true) {now : Time} {es : List Event}
    (h : Runs.run (step f) (init now) es = some s) (key : Str) :
    Probed f s.shared.breakers key (s.holding key) := by
  have hinv : Frugal f s ∧ Probed f s.shared.breakers key (s.holding key) := by
    refine @Runs.inv_of_steps _ _ _ _ _ _
      (fun s => Frugal f s ∧ Probed f s.shared.breakers key (s.holding key)) ⟨?_, ?_⟩ ?_ h
    · exact @frugal_of_run f (init now) now [] rfl
    · exact ⟨_, [], rfl, rfl, rfl⟩
    · rintro s e s' ⟨hf, hp⟩ hs
      have hsteps := steps_of_step hs
      exact ⟨hf.step hsteps, probed_of_step hon hf.orderly hp hsteps⟩
  exact hinv.2

theorem predicts_of_not_halfOpen (hon : f.breakerEnabled = true) {sh : Shared} {u : Upstream}
    (hnot : (breakerFor f.policy sh.breakers u).state ≠ .halfOpen)
    (hdisabled : u.addr ∉ sh.disabled) (role : Role) :
    (backendStatus f sh role u).Predicts f sh := by
  simp only [BackendStatus.Predicts, backendStatus, if_neg hdisabled, hon, if_pos]
  refine ⟨_, rfl, ?_⟩
  unfold breakerFor at hnot ⊢
  cases hlookup : sh.breakers.lookup u.key with
  | none => simp [newBreaker, Settings.breaker, Breaker.allow]
  | some b =>
    rw [hlookup, Option.getD_some] at hnot
    cases hstate : b.state with
    | closed => simp [Breaker.status, Breaker.allow, hstate]
    | halfOpen => exact absurd hstate hnot
    | tripped =>
      simp only [Option.map_some, Option.getD_some, Breaker.status, Breaker.allow, hstate]
      refine ⟨by simp, ?_⟩
      split_ifs with hcool
      · simp [hcool]
      · simp [hcool]

/-- In every interleaving, a half-open breaker is held by a call that probes its upstream. So
while no call holds it, it is reported as closed or open, and a call that had its turn now would
be let through exactly if no cooldown is reported. -/
theorem backends_predict (hon : f.breakerEnabled = true) {now : Time} {es : List Event}
    (h : Runs.run (step f) (init now) es = some s) (u : Upstream) :
    ((breakerFor f.policy s.shared.breakers u).state = .halfOpen → 0 < s.holding u.key) ∧
    (s.holding u.key = 0 → u.addr ∉ s.shared.disabled →
      (∀ role, (backendStatus f s.shared role u).Predicts f s.shared) ∧
      ∀ b ∈ backends f s.shared, b.u = u → b.Predicts f s.shared) := by
  obtain ⟨p, es', hrun, hb, hn⟩ := probed_of_run hon h u.key
  have hhalf : (breakerFor f.policy s.shared.breakers u).state = .halfOpen →
      0 < s.holding u.key := by
    intro hstate
    rw [breakerFor, ← hb] at hstate
    have ht := Probing.run_tracked hrun
    rw [← hn]
    exact List.length_pos_of_mem (ht.outstanding hstate p.entered le_rfl (ht.entered_lt hstate))
  refine ⟨hhalf, fun hidle hdisabled => ?_⟩
  have hnot : (breakerFor f.policy s.shared.breakers u).state ≠ .halfOpen :=
    fun hstate => absurd (hhalf hstate) (by omega)
  have hall := predicts_of_not_halfOpen hon hnot hdisabled
  refine ⟨hall, fun b hmem hu => ?_⟩
  obtain ⟨role, hrole⟩ := exists_of_mem_backends hmem
  rw [hrole, hu]
  exact hall role

/-- A call whose only server fails over TLS, up to the report to the breaker. -/
def failing (i : ℕ) : List Event :=
  [.forward ['a'], .work i, .work i, .work i, .answer i (.error []), .work i, .work i]

/-- After five failures in a row the next call would be refused, and a cooldown is reported. -/
theorem backends_predict_refusal :
    ∃ s, Runs.run (step oneServer) (init 0) ((List.range 5).flatMap failing) = some s ∧
      ((breakerFor defaultPolicy s.shared.breakers
        (parseServer "1.1.1.1".toList).primary).allow s.shared.now).2 = false ∧
      ∃ b ∈ backends oneServer s.shared, b.u = (parseServer "1.1.1.1".toList).primary ∧
        ∃ st, b.breaker = some st ∧ st.cooldown ≠ 0 := by
  obtain ⟨s, hs, hmap⟩ := Option.map_eq_some_iff.mp (show
    (Runs.run (step oneServer) (init 0) ((List.range 5).flatMap failing)).map
      (fun s => (s.holding (parseServer "1.1.1.1".toList).primary.key, s.shared.disabled,
        ((breakerFor defaultPolicy s.shared.breakers
          (parseServer "1.1.1.1".toList).primary).allow s.shared.now).2)) = some (0, ∅, false) by
      decide +kernel)
  obtain ⟨hidle, hmap⟩ := Prod.mk.inj hmap
  obtain ⟨hdisabled, hrefused⟩ := Prod.mk.inj hmap
  have hpredict := (backends_predict rfl hs (parseServer "1.1.1.1".toList).primary).2 hidle
    (by simp [hdisabled])
  have hmem : backendStatus oneServer s.shared .primary (parseServer "1.1.1.1".toList).primary ∈
      backends oneServer s.shared := List.mem_append_left _ List.mem_cons_self
  have hu := u_backendStatus oneServer s.shared .primary (parseServer "1.1.1.1".toList).primary
  obtain ⟨st, hst, -, hiff⟩ := hpredict.2 _ hmem hu
  refine ⟨s, hs, hrefused, _, hmem, hu, st, hst, fun hzero => ?_⟩
  have hallowed := hiff.mpr hzero
  rw [hu, show oneServer.policy = defaultPolicy from rfl, hrefused] at hallowed
  cases hallowed

end System

end SplitDNS.Forwarder
