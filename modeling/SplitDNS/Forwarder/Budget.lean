import Mathlib.Algebra.GroupWithZero.Nat
import SplitDNS.Forwarder.Contacts

/-! # How many requests are sent

A call sends at most one request to each upstream of a stage, and one more to it
over TCP if the first answer does not fit a datagram: the second pass is made only
if the first one sent nothing. To an address that is disabled only those calls still
send that had found it enabled.
-/

namespace SplitDNS.Forwarder

open Go Dns

def Upstream.cost (u : Upstream) : ℕ := if u.net = "udp".toList then 2 else 1

theorem Upstream.cost_pos (u : Upstream) : 0 < u.cost := by
  unfold cost
  split_ifs <;> omega

def Entry.sentBy (i : ℕ) (u : Upstream) : Entry → Bool
  | .sent j _ _ _ v => j = i && v = u
  | _ => false

def Entry.sentTo (addr : Str) : Entry → Bool
  | .sent _ _ _ _ u => u.addr = addr
  | _ => false

section Send

variable (s : Shared) (i : ℕ) (name : Str) (stage : Stage) (u : Upstream)

theorem log_send : ∃ via, (s.send i name stage u).log = .sent i name stage via u :: s.log := by
  unfold Shared.send Shared.clientFor
  split <;> exact ⟨_, rfl⟩

theorem disabled_send : (s.send i name stage u).disabled = s.disabled := by
  unfold Shared.send Shared.clientFor
  split <;> rfl

theorem countP_sentTo_send (addr : Str) :
    (s.send i name stage u).log.countP (Entry.sentTo addr) =
      s.log.countP (Entry.sentTo addr) + if u.addr = addr then 1 else 0 := by
  obtain ⟨via, hlog⟩ := log_send s i name stage u
  rw [hlog, List.countP_cons]
  by_cases h : u.addr = addr <;> simp [Entry.sentTo, h]

theorem countP_sentBy_send (j : ℕ) (v : Upstream) :
    (s.send i name stage u).log.countP (Entry.sentBy j v) =
      s.log.countP (Entry.sentBy j v) + if i = j ∧ u = v then 1 else 0 := by
  obtain ⟨via, hlog⟩ := log_send s i name stage u
  rw [hlog, List.countP_cons]
  simp [Entry.sentBy]

end Send

section Disabled

/-- The requests a call may still send to an address without finding it enabled again. -/
def Pc.owed (addr : Str) : Pc → ℕ
  | .allow u _ | .exchange u _ => if u.addr = addr then u.cost else 0
  | .waiting u _ _ => if u.addr = addr then u.cost - 1 else 0
  | _ => 0

def System.sentTo (s : System) (addr : Str) : ℕ := s.shared.log.countP (Entry.sentTo addr)

def System.owed (s : System) (addr : Str) : ℕ := (s.queries.map fun q => q.pc.owed addr).sum

def Event.enables (addr : Str) : Event → Bool
  | .setBackendEnabled a enabled => a = addr && enabled
  | .resetBackends => true
  | _ => false

variable {f : Setup} {i : ℕ} {s s' : Shared} {q q' : Query} {addr : Str}

theorem owed_of_moves (hm : Moves f i s q s' q') (hdisabled : addr ∈ s.disabled) :
    s'.disabled = s.disabled ∧ s'.log.countP (Entry.sentTo addr) + q'.pc.owed addr ≤
      s.log.countP (Entry.sentTo addr) + q.pc.owed addr := by
  cases hm with
  | skip | again | giveUp => exact ⟨rfl, by simp [Query.skip, Pc.owed]⟩
  | refused => exact ⟨rfl, by simp [Shared.setBreaker, Query.skip, Pc.owed]⟩
  | @guarded u _ hpc _ hu | @unguarded u _ hpc _ hu | @forced u _ hpc _ hu =>
    have hne : u.addr ≠ addr := fun heq => hu (heq ▸ hdisabled)
    exact ⟨rfl, by simp [Pc.owed, hne]⟩
  | downgrade => exact ⟨rfl, by simp [Shared.logged, Entry.sentTo, Pc.owed]⟩
  | allowed hpc => exact ⟨rfl, by rw [hpc]; exact le_rfl⟩
  | @send u _ hpc =>
    refine ⟨disabled_send _ _ _ _ _, ?_⟩
    rw [countP_sentTo_send, hpc]
    have hcost := u.cost_pos
    simp only [Pc.owed]
    split_ifs <;> omega
  | @truncated u _ _ _ hpc hudp =>
    refine ⟨disabled_send _ _ _ _ _, ?_⟩
    rw [countP_sentTo_send, hpc]
    by_cases h : u.addr = addr <;> simp [Upstream.overTcp, Pc.owed, Upstream.cost, hudp, h]
  | answered | retried => exact ⟨rfl, by simp [Pc.owed]⟩
  | note => exact ⟨rfl, by simp [Shared.noteAttempt, Pc.owed]⟩
  | @record _ _ out | @unrecorded _ _ out =>
    cases out <;> exact ⟨rfl, by simp [Query.settle, Pc.owed, Shared.setBreaker]⟩

namespace System

variable {s s' : System}

/-- As long as an address is disabled, no more requests go to it than were owed when it was. -/
structure Drains (addr : Str) (s s' : System) : Prop where
  disabled : addr ∈ s'.shared.disabled
  sent : s'.sentTo addr + s'.owed addr ≤ s.sentTo addr + s.owed addr

theorem drains_of_moves {q q' : Query} {sh : Shared} (hq : s.queries[i]? = some q)
    (hm : Moves f i s.shared q sh q') (hdisabled : addr ∈ s.shared.disabled) :
    Drains addr s ⟨sh, s.queries.set i q'⟩ := by
  obtain ⟨hsame, hle⟩ := owed_of_moves hm hdisabled
  refine ⟨hsame ▸ hdisabled, ?_⟩
  have hsum := @sum_map_set _ _ _ _ q' hq (fun q => q.pc.owed addr)
  simp only [sentTo, owed]
  omega

theorem drains_of_step {e : Event} (hs : s.step f e = some s') (he : e.enables addr = false)
    (hdisabled : addr ∈ s.shared.disabled) : Drains addr s s' := by
  cases e with
  | elapse d =>
    cases hs
    exact ⟨hdisabled, le_rfl⟩
  | forward | forwardTo =>
    cases hs
    exact ⟨hdisabled, by simp [owed, sentTo, Pc.owed]⟩
  | setBackendEnabled a enabled =>
    simp only [step] at hs
    split_ifs at hs with hknown henabled <;> cases hs
    · have hne : addr ≠ a := by
        rintro rfl
        simp [Event.enables, henabled] at he
      exact ⟨Finset.mem_erase.mpr ⟨hne, hdisabled⟩, le_rfl⟩
    · exact ⟨Finset.mem_insert_of_mem hdisabled, le_rfl⟩
    · exact ⟨hdisabled, le_rfl⟩
  | resetBackends => simp [Event.enables] at he
  | work i =>
    obtain ⟨q, sh, q', hq, hwork, rfl⟩ := exists_of_act hs
    exact drains_of_moves hq (moves_of_work hwork) hdisabled
  | answer i r =>
    obtain ⟨q, sh, q', hq, hanswer, rfl⟩ := exists_of_act hs
    exact drains_of_moves hq (@moves_of_answer f _ _ _ _ _ _ hanswer) hdisabled

/-- From any state, in every interleaving, as long as a disabled address is not enabled again no
more requests go to it than the calls that had found it enabled may still send: one each, and one
more over TCP. -/
theorem sent_while_disabled {es : List Event} (hdisabled : addr ∈ s.shared.disabled)
    (hes : ∀ e ∈ es, e.enables addr = false) (h : Runs.run (step f) s es = some s') :
    s'.sentTo addr ≤ s.sentTo addr + s.owed addr := by
  have hinv : Drains addr s s' := by
    refine @Runs.inv_of_run _ _ _ _ _ _ (fun _ s' => Drains addr s s')
      (fun _ _ e => e.enables addr = false) ⟨hdisabled, le_rfl⟩ ?_ ?_ h
    · intro _ s₁ e s₂ hd he hs
      have hd' := drains_of_step hs he hd.disabled
      exact ⟨hd'.disabled, hd'.sent.trans hd.sent⟩
    · intro pre e post _ heq _
      exact hes e (heq ▸ List.mem_append_right pre List.mem_cons_self)
  exact (Nat.le_add_right _ _).trans hinv.sent

/-- A call that had found the address enabled sends its request after the address was disabled. -/
theorem sent_once_disabled :
    ∃ s s', Runs.run (step oneServer) (init 0)
        [.forward ['a'], .work 0, .setBackendEnabled "1.1.1.1:853".toList false] = some s ∧
      Runs.run (step oneServer) s [.work 0, .work 0] = some s' ∧
      s'.sentTo "1.1.1.1:853".toList = 1 ∧
      s'.sentTo "1.1.1.1:853".toList ≤
        s.sentTo "1.1.1.1:853".toList + s.owed "1.1.1.1:853".toList := by
  obtain ⟨s, hs, hdisabled⟩ := Option.map_eq_some_iff.mp (show
    (Runs.run (step oneServer) (init 0)
      [.forward ['a'], .work 0, .setBackendEnabled "1.1.1.1:853".toList false]).map
      (fun s => decide ("1.1.1.1:853".toList ∈ s.shared.disabled)) = some true by decide +kernel)
  obtain ⟨s', hs', hsent⟩ := Option.map_eq_some_iff.mp (show
    (Runs.run (step oneServer) (init 0)
      ([.forward ['a'], .work 0, .setBackendEnabled "1.1.1.1:853".toList false] ++
        [.work 0, .work 0])).map (fun s => s.sentTo "1.1.1.1:853".toList) = some 1 by
      decide +kernel)
  obtain ⟨s₁, hs₁, hrun⟩ := Runs.run_append_eq_some.mp hs'
  obtain rfl : s₁ = s := Option.some.inj (hs₁.symm.trans hs)
  exact ⟨s₁, s', hs, hrun, hsent,
    sent_while_disabled (of_decide_eq_true hdisabled) (by decide +kernel) hrun⟩

end System

end Disabled

section Spent

/-- The requests to `u` that an attempt on `v` sends after the first one. -/
def Upstream.retries (v u : Upstream) : ℕ :=
  if v.net = "udp".toList ∧ v.overTcp = u then 1 else 0

def Upstream.requests (v u : Upstream) : ℕ := (if v = u then 1 else 0) + v.retries u

/-- The requests to `u` that attempts on some upstreams may send. -/
def weight (u : Upstream) (ups : List Upstream) : ℕ := (ups.map fun v => v.requests u).sum

theorem weight_cons (u v : Upstream) (ups : List Upstream) :
    weight u (v :: ups) = v.requests u + weight u ups := by
  simp [weight]

theorem weight_le (u : Upstream) (ups : List Upstream) :
    weight u ups ≤ ups.count u + ups.countP (·.overTcp = u) := by
  induction ups with
  | nil => exact le_rfl
  | cons v ups ih =>
    have hretries : v.retries u ≤ if v.overTcp = u then 1 else 0 := by
      unfold Upstream.retries
      split_ifs with hboth htcp <;> simp_all
    rw [weight_cons, Upstream.requests, List.count_cons, List.countP_cons]
    simp only [beq_iff_eq, decide_eq_true_eq]
    omega

theorem weight_primary (u : Upstream) (ts : List Target) :
    weight u (ts.map Target.primary) = ts.countP (·.primary = u) := by
  induction ts with
  | nil => rfl
  | cons t ts ih =>
    have htls : t.primary.retries u = 0 := by simp [Upstream.retries, Target.primary]
    rw [List.map_cons, weight_cons, ih, Upstream.requests, htls, List.countP_cons]
    simp only [decide_eq_true_eq]
    omega

theorem weight_fallback (u : Upstream) (ts : List Target) :
    weight u (ts.map Target.fallback) ≤
      ts.countP (·.fallback = u) + ts.countP (·.fallback.overTcp = u) := by
  have hle := weight_le u (ts.map Target.fallback)
  rw [List.count_eq_countP, List.countP_map, List.countP_map] at hle
  exact hle

theorem weight_le_of_suffix (u : Upstream) {ups rest : List Upstream} (h : rest <:+ ups) :
    weight u rest ≤ weight u ups := by
  obtain ⟨pre, rfl⟩ := h
  simp [weight]

/-- The requests to `u` that a call may still send at its stage. Until one upstream is attempted,
all of them may be. -/
def Query.left (u : Upstream) (q : Query) : ℕ :=
  match q.pc with
  | .turn rest => if q.allowedAny || q.forced then weight u rest else weight u q.ups
  | .allow v rest => if q.allowedAny then v.requests u + weight u rest else weight u q.ups
  | .exchange v rest => v.requests u + weight u rest
  | .waiting v rest _ => v.retries u + weight u rest
  | .retrying _ rest _ _ | .note _ rest _ _ | .record _ rest _ => weight u rest
  | .returned _ => 0

variable (f : Setup) (u : Upstream)

def Setup.spare : ℕ := if f.cleartext then weight u f.fallback else 0

def Query.budget (q : Query) : ℕ := q.left u + if q.stage = .primary then f.spare u else 0

def Query.allowance (q : Query) : ℕ :=
  if q.stage = .stub then weight u q.ups else weight u f.primary + f.spare u

/-- The call has passed over no upstream without its turn, and has noted that it attempted one. -/
structure Query.Orderly (q : Query) : Prop where
  walk : q.pc.current.toList ++ q.pc.rest <:+ q.ups
  began : match q.pc with
    | .allow _ _ => q.forced = false
    | .exchange _ _ | .waiting _ _ _ | .retrying _ _ _ _ | .note _ _ _ _ | .record _ _ _ =>
      (q.allowedAny || q.forced) = true
    | .turn _ | .returned _ => True

variable {f u} {i : ℕ} {s s' : Shared} {q q' : Query}

theorem Query.Orderly.moves (h : q.Orderly) (hm : Moves f i s q s' q') : q'.Orderly := by
  have hwalk := h.walk
  have hbegan := h.began
  cases hm with
  | skip _ hpc | refused _ hpc =>
    rw [hpc] at hwalk
    exact ⟨(List.suffix_cons _ _).trans hwalk, trivial⟩
  | guarded hpc _ _ hpass =>
    rw [hpc] at hwalk
    exact ⟨hwalk, hpass⟩
  | unguarded hpc | allowed hpc =>
    rw [hpc] at hwalk
    exact ⟨hwalk, rfl⟩
  | forced hpc _ _ hpass =>
    rw [hpc] at hwalk
    exact ⟨hwalk, by simp [hpass]⟩
  | again | downgrade => exact ⟨List.suffix_rfl, trivial⟩
  | giveUp => exact ⟨List.nil_suffix, trivial⟩
  | send hpc | truncated _ hpc | answered _ hpc | retried _ hpc | note hpc =>
    rw [hpc] at hwalk hbegan
    exact ⟨hwalk, hbegan⟩
  | @record _ _ out hpc | @unrecorded _ _ out hpc =>
    rw [hpc] at hwalk
    cases out with
    | ok resp => exact ⟨List.nil_suffix, trivial⟩
    | error err => exact ⟨(List.suffix_cons _ _).trans hwalk, trivial⟩

theorem budget_of_left {n : ℕ} (hstage : q'.stage = q.stage) (hleft : n + q'.left u ≤ q.left u) :
    n + q'.budget f u ≤ q.budget f u := by
  rw [Query.budget, Query.budget, hstage]
  omega

theorem budget_of_moves (h : q.Orderly) (hm : Moves f i s q s' q') :
    s'.log.countP (Entry.sentBy i u) + q'.budget f u ≤
      s.log.countP (Entry.sentBy i u) + q.budget f u := by
  have hwalk := weight_le_of_suffix u h.walk
  have hbegan := h.began
  have hquiet (hlog : s'.log.countP (Entry.sentBy i u) = s.log.countP (Entry.sentBy i u))
      (hstage : q'.stage = q.stage) (hleft : q'.left u ≤ q.left u) :
      s'.log.countP (Entry.sentBy i u) + q'.budget f u ≤
        s.log.countP (Entry.sentBy i u) + q.budget f u := by
    have hle := @budget_of_left f u q q' 0 hstage (by omega)
    omega
  cases hm with
  | skip _ hpc =>
    refine hquiet rfl rfl ?_
    cases hany : q.allowedAny || q.forced <;> simp [Query.left, Query.skip, hpc, weight_cons, hany]
  | guarded hpc _ _ hpass | forced hpc _ _ hpass =>
    refine hquiet rfl rfl ?_
    simp [Query.left, hpc, hpass, weight_cons]
  | unguarded hpc | allowed hpc =>
    rw [hpc] at hwalk
    refine hquiet rfl rfl ?_
    simp only [Query.left, hpc, ← weight_cons]
    split_ifs
    · exact le_rfl
    · exact hwalk
  | again hpc hpass hnone =>
    refine hquiet rfl rfl ?_
    simp [Query.left, hpc, hpass, hnone]
  | downgrade _ hpc hstage hcleartext =>
    simp [Shared.logged, Entry.sentBy, Query.budget, Query.left, Setup.spare, hstage, hcleartext]
  | giveUp => exact hquiet rfl rfl (Nat.zero_le _)
  | refused _ hpc =>
    rw [hpc] at hbegan
    refine hquiet rfl rfl ?_
    simp only [Query.left, Query.skip, hpc, hbegan, Bool.or_false]
    split_ifs <;> omega
  | send hpc =>
    rw [countP_sentBy_send, Nat.add_assoc]
    apply Nat.add_le_add_left
    apply budget_of_left
    · rfl
    · simp [Query.left, hpc, Upstream.requests, Nat.add_assoc]
  | truncated _ hpc hudp =>
    rw [countP_sentBy_send, Nat.add_assoc]
    apply Nat.add_le_add_left
    apply budget_of_left
    · rfl
    · simp [Query.left, hpc, Upstream.retries, hudp]
  | answered _ hpc | retried _ hpc | note hpc =>
    refine hquiet rfl rfl ?_
    simp [Query.left, hpc]
  | @record _ _ out hpc | @unrecorded _ _ out hpc =>
    rw [hpc] at hbegan
    cases out with
    | ok resp => exact hquiet rfl rfl (Nat.zero_le _)
    | error err =>
      refine hquiet rfl rfl ?_
      simp [Query.left, Query.settle, hpc, hbegan]

theorem allowance_of_moves (hm : Moves f i s q s' q') :
    q'.allowance f u = q.allowance f u ∧
      ∀ j ≠ i, s'.log.countP (Entry.sentBy j u) = s.log.countP (Entry.sentBy j u) := by
  cases hm with
  | downgrade _ _ hstage =>
    refine ⟨by simp [Query.allowance, hstage], fun j _ => ?_⟩
    simp [Shared.logged, Entry.sentBy]
  | send | truncated =>
    refine ⟨rfl, fun j hj => ?_⟩
    rw [countP_sentBy_send, if_neg fun h => hj h.1.symm]
    rfl
  | @record _ _ out | @unrecorded _ _ out => cases out <;> exact ⟨rfl, fun _ _ => rfl⟩
  | skip | guarded | unguarded | forced | again | giveUp | refused | allowed | answered | retried
  | note => exact ⟨rfl, fun _ _ => rfl⟩

namespace System

structure Frugal (f : Setup) (s : System) : Prop where
  orderly : ∀ q ∈ s.queries, q.Orderly
  spent : ∀ i q u, s.queries[i]? = some q →
    s.shared.log.countP (Entry.sentBy i u) + q.budget f u ≤ q.allowance f u
  fresh : ∀ i u, s.queries.length ≤ i → s.shared.log.countP (Entry.sentBy i u) = 0

variable {s s' : System}

theorem Frugal.step (h : Frugal f s) (hs : Steps f s s') : Frugal f s' := by
  cases hs with
  | elapse | switch => exact ⟨h.orderly, h.spent, h.fresh⟩
  | call q hstage hpc hnew =>
    refine ⟨?_, ?_, ?_⟩
    · intro p hp
      rcases List.mem_append.mp hp with hp | hp
      · exact h.orderly p hp
      · rw [List.mem_singleton.mp hp]
        refine ⟨?_, ?_⟩ <;> rw [hpc]
        · exact List.suffix_rfl
        · trivial
    · intro i p u hp
      rcases getElem?_concat_eq_some hp with hp | ⟨rfl, rfl⟩
      · exact h.spent i p u hp
      · rw [h.fresh _ u le_rfl]
        have hleft : p.left u = weight u p.ups := by simp [Query.left, hpc, hnew]
        rcases hstage with ⟨hstage, hups⟩ | ⟨hstage, -⟩
        · simp [Query.budget, Query.allowance, hleft, hstage, hups]
        · simp [Query.budget, Query.allowance, hleft, hstage]
    · intro i u hi
      rw [List.length_append] at hi
      exact h.fresh i u (by omega)
  | @act i q q' sh hq hm =>
    have ho := h.orderly q (List.mem_of_getElem? hq)
    have hi : i < s.queries.length := (List.getElem?_eq_some_iff.mp hq).1
    refine ⟨?_, ?_, ?_⟩
    · intro p hp
      rcases List.mem_or_eq_of_mem_set hp with hp | rfl
      · exact h.orderly p hp
      · exact ho.moves hm
    · intro j p u hp
      obtain ⟨hallowance, hothers⟩ := @allowance_of_moves _ u _ _ _ _ _ hm
      rcases getElem?_set_eq_some hp with ⟨rfl, rfl⟩ | ⟨hij, hp⟩
      · rw [hallowance]
        exact (budget_of_moves ho hm).trans (h.spent _ _ u hq)
      · rw [hothers j hij.symm]
        exact h.spent j p u hp
    · intro j u hj
      rw [List.length_set] at hj
      rw [(@allowance_of_moves _ u _ _ _ _ _ hm).2 j (by omega)]
      exact h.fresh j u hj

theorem frugal_of_run {now : Time} {es : List Event}
    (h : Runs.run (step f) (init now) es = some s) : Frugal f s := by
  refine Runs.inv_of_steps ?_ (fun _ _ _ hi hs => hi.step (steps_of_step hs)) h
  refine ⟨?_, ?_, fun _ _ _ => rfl⟩
  · intro q hq
    simp [init] at hq
  · intro i q u hq
    simp [init] at hq

/-- In every interleaving, what a call sends to an upstream is at most one request for each server
it is the TLS side of, and if the fallback is enabled one for each server it is the UDP side of and
one for each whose answer it repeats over TCP. To a stub target it sends at most one request over
UDP and one over TCP. -/
theorem sent_bounded {servers : List Str} {cleartext breaker : Bool} {now : Time}
    {es : List Event} (hf : build servers cleartext breaker = some f)
    (h : Runs.run (step f) (init now) es = some s) {i : ℕ} {q : Query}
    (hq : s.queries[i]? = some q) (u : Upstream) :
    s.shared.log.countP (Entry.sentBy i u) ≤
      if q.stage = .stub then q.ups.count u + q.ups.countP (·.overTcp = u)
      else (servers.map parseServer).countP (·.primary = u) +
        if cleartext then
          (servers.map parseServer).countP (·.fallback = u) +
            (servers.map parseServer).countP (·.fallback.overTcp = u)
        else 0 := by
  obtain ⟨hprimary, hfallback, hcleartext, -⟩ := build_eq_some hf
  refine ((Nat.le_add_right _ _).trans ((frugal_of_run h).spent i q u hq)).trans ?_
  unfold Query.allowance Setup.spare
  rw [hprimary, hfallback, hcleartext, weight_primary]
  split_ifs
  · exact weight_le u q.ups
  · exact Nat.add_le_add_left (weight_fallback u _) _
  · exact le_rfl

/-- A query that no transport answers is sent once over TLS, once over UDP and, when its answer does
not fit, once over TCP. -/
theorem sent_three_times :
    let server := parseServer "1.1.1.1".toList
    ∃ s, Runs.run (step oneServer) (init 0) ([.forward ['a'], .work 0, .work 0, .work 0,
        .answer 0 (.error [])] ++ List.replicate 6 (.work 0) ++
        [.answer 0 (.ok { truncated := true })]) = some s ∧
      ∀ u ∈ [server.primary, server.fallback, server.fallback.overTcp],
        s.shared.log.countP (Entry.sentBy 0 u) = 1 ∧ s.shared.log.countP (Entry.sentBy 0 u) ≤
          [server].countP (·.primary = u) +
            ([server].countP (·.fallback = u) + [server].countP (·.fallback.overTcp = u)) := by
  intro server
  obtain ⟨s, hs, hmap⟩ := Option.map_eq_some_iff.mp (show
    (Runs.run (step oneServer) (init 0) ([.forward ['a'], .work 0, .work 0, .work 0,
      .answer 0 (.error [])] ++ List.replicate 6 (.work 0) ++
      [.answer 0 (.ok { truncated := true })])).map
      (fun s => (s.queries[0]?.map Query.stage,
        [server.primary, server.fallback, server.fallback.overTcp].map fun u =>
          s.shared.log.countP (Entry.sentBy 0 u))) = some (some .fallback, [1, 1, 1]) by
      decide +kernel)
  obtain ⟨hstage, hcount⟩ := Prod.mk.inj hmap
  obtain ⟨q, hq, hstage⟩ := Option.map_eq_some_iff.mp hstage
  have hbuild : build ["1.1.1.1".toList] true true = some oneServer := rfl
  refine ⟨s, hs, fun u hu => ⟨?_, ?_⟩⟩
  · have hone : s.shared.log.countP (Entry.sentBy 0 u) ∈ [1, 1, 1] :=
      hcount ▸ List.mem_map_of_mem hu
    simpa using hone
  · have hle := sent_bounded hbuild hs hq u
    rwa [hstage, if_neg (by decide), if_pos rfl] at hle

end System

end Spent

end SplitDNS.Forwarder
