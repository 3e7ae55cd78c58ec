import SplitDNS.Forwarder.Budget

/-! # What the counters of an upstream count

An exchange begins with the request to an upstream and is over when the call counts
it. The first answer decides whether the upstream answered: a truncated datagram is
an answer, whatever becomes of its retry over TCP, and the retry is part of the same
exchange. The counters of an upstream are those of its exchanges that are over, as
somebody writes them down who sees the clock, the requests and the answers.
-/

namespace SplitDNS.Forwarder

open Go Dns

/-- The counters of an upstream: its attempts, the failed ones, and the mean and the last latency
of the others. -/
def Shared.statSnapshot (s : Shared) (u : Upstream) : ℕ × ℕ × Duration × Duration :=
  match s.bstats.lookup u.key with
  | none => (0, 0, 0, 0)
  | some bs =>
    let ok := bs.queries - bs.failures
    (bs.queries, bs.failures, if 0 < ok then bs.okLatency.tdiv ok else 0, bs.lastOK)

/-- An exchange that is not over: since when, and whether its request was answered. -/
structure Exchange where
  u : Upstream
  start : Time
  answered : Option Bool := none
  deriving DecidableEq, Repr

/-- The exchange under way of each call, and those that are over with their latencies, the latest
first. -/
structure Ledger where
  pending : ℕ → Option Exchange := fun _ => none
  ended : List (Str × Bool × Duration) := []

namespace Ledger

variable (l : Ledger)

def work (i : ℕ) (now : Time) : Pc → Ledger
  | .exchange u _ => { l with pending := Function.update l.pending i (some ⟨u, now, none⟩) }
  | .note _ _ _ _ =>
    match l.pending i with
    | some x =>
      { pending := Function.update l.pending i none
        ended := (x.u.key, x.answered.getD false, now - x.start) :: l.ended }
    | none => l
  | _ => l

/-- An answer comes in. That to a retry comes second and changes nothing. -/
def answer (i : ℕ) (r : Except Str Msg) : Ledger where
  pending := Function.update l.pending i
    ((l.pending i).map fun x => { x with answered := x.answered.or (some r.isOk) })
  ended := l.ended

def observe (s : System) : Event → Ledger
  | .work i =>
    match s.queries[i]? with
    | some q => l.work i s.shared.now q.pc
    | none => l
  | .answer i r => l.answer i r
  | _ => l

/-- The exchanges under a key that are over. -/
def under (key : Str) : List (Bool × Duration) :=
  l.ended.filterMap fun x => if x.1 = key then some x.2 else none

end Ledger

/-- A step of the forwarder, written down. -/
def System.watch (f : Setup) (p : System × Ledger) (e : Event) : Option (System × Ledger) :=
  (p.1.step f e).map fun s' => (s', p.2.observe p.1 e)

def Entry.sentUnder (key : Str) : Entry → Bool
  | .sent _ _ _ _ u => u.key = key
  | _ => false

/-- The exchange a call waits for, or has not counted yet. -/
def Pc.pending : Pc → Option Exchange
  | .waiting u _ start => some ⟨u, start, none⟩
  | .retrying u _ start _ => some ⟨u, start, some true⟩
  | .note u _ start out => some ⟨u, start, some out.isOk⟩
  | _ => none

def Query.attempting (key : Str) (q : Query) : Bool := q.pc.pending.any (·.u.key = key)

def System.attempting (s : System) (key : Str) : ℕ := s.queries.countP (Query.attempting key)

def BackendStat.ofEnded (l : List (Bool × Duration)) : BackendStat where
  queries := l.length
  failures := l.countP fun a => !a.1
  okLatency := ((l.filter Prod.fst).map Prod.snd).sum
  lastOK := ((l.find? Prod.fst).map Prod.snd).getD 0

theorem length_answered (l : List (Bool × Duration)) :
    l.length - l.countP (fun a => !a.1) = ((l.filter Prod.fst).map Prod.snd).length := by
  have hsplit := List.length_eq_countP_add_countP (p := Prod.fst) (l := l)
  rw [List.length_map, ← List.countP_eq_length_filter]
  simp only [Bool.not_eq_true] at hsplit
  have hneg : l.countP (fun a => !a.1) = l.countP fun a => decide (a.1 = false) := by
    congr 1
    ext a
    cases a.1 <;> rfl
  omega

section Sections

variable {f : Setup} {i : ℕ} {s s' : Shared} {q q' : Query} {l : Ledger} {key : Str}

/-- What a section of a call does to the ledger and to the counters. -/
structure Kept (key : Str) (i : ℕ) (s s' : Shared) (q q' : Query) (l l' : Ledger) : Prop where
  pending : l'.pending = Function.update l.pending i q'.pc.pending
  counts : (∀ key, (s.bstats.lookup key).getD {} = .ofEnded (l.under key)) →
    ∀ key, (s'.bstats.lookup key).getD {} = .ofEnded (l'.under key)
  sent : s'.log.countP (Entry.sentUnder key) + (l.under key).length +
      (if q.attempting key then 1 else 0) =
    s.log.countP (Entry.sentUnder key) + (l'.under key).length +
      (if q'.attempting key then 1 else 0)

theorem bstats_send (s : Shared) (i : ℕ) (name : Str) (stage : Stage) (u : Upstream) :
    (s.send i name stage u).bstats = s.bstats := by
  unfold Shared.send Shared.clientFor
  split <;> rfl

/-- A section that sends and counts nothing. -/
theorem Kept.quiet (hl : l.pending i = q.pc.pending) (hpc : q'.pc.pending = q.pc.pending)
    (hstats : s'.bstats = s.bstats)
    (hlog : s'.log.countP (Entry.sentUnder key) = s.log.countP (Entry.sentUnder key)) :
    Kept key i s s' q q' l l := by
  refine ⟨?_, fun h => hstats ▸ h, ?_⟩
  · rw [hpc, ← hl, Function.update_eq_self]
  · rw [hlog, Query.attempting, Query.attempting, hpc]

theorem under_note {u : Upstream} {start : Time} {ok : Bool} {rest : List Upstream}
    {out : Except Str Msg} (hl : l.pending i = some ⟨u, start, some ok⟩) (now : Time) (key : Str) :
    (l.work i now (.note u rest start out)).under key =
      if u.key = key then (ok, now - start) :: l.under key else l.under key := by
  by_cases h : u.key = key <;> simp [Ledger.under, Ledger.work, hl, h]

/-- Counting an exchange that is over keeps the counters those of the ledger. -/
theorem counts_note {u : Upstream} {start : Time} {rest : List Upstream} {out : Except Str Msg}
    (hl : l.pending i = some ⟨u, start, some out.isOk⟩)
    (h : ∀ key, (s.bstats.lookup key).getD {} = .ofEnded (l.under key)) (key : Str) :
    ((s.noteAttempt u out.isOk (s.now - start)).bstats.lookup key).getD {} =
      .ofEnded ((l.work i s.now (.note u rest start out)).under key) := by
  rw [under_note hl]
  simp only [Shared.noteAttempt, Map.lookup_insert_eq_ite]
  by_cases heq : key = u.key
  · subst heq
    rw [if_pos rfl, if_pos rfl, Option.getD_some, h]
    cases out.isOk with
    | true => simp [BackendStat.ofEnded, Int.add_comm]
    | false => simp [BackendStat.ofEnded]
  · rw [if_neg heq, if_neg (Ne.symm heq)]
    exact h key

theorem kept_of_work (hl : l.pending i = q.pc.pending) (hwork : work f i s q = some (s', q')) :
    Kept key i s s' q q' l (l.work i s.now q.pc) := by
  cases moves_of_work hwork with
  | skip _ hpc | guarded hpc | unguarded hpc | forced hpc | again hpc | giveUp _ hpc
  | refused _ hpc | allowed hpc =>
    rw [hpc] at hl ⊢
    exact .quiet (by rw [hl, hpc]) (by rw [hpc]; rfl) rfl rfl
  | downgrade _ hpc =>
    rw [hpc] at hl ⊢
    exact .quiet (by rw [hl, hpc]) (by rw [hpc]; rfl) rfl (by simp [Shared.logged, Entry.sentUnder])
  | @send u rest hpc =>
    rw [hpc] at hl ⊢
    refine ⟨rfl, fun h => by rw [bstats_send]; exact h, ?_⟩
    obtain ⟨via, hlog⟩ := log_send s i q.name q.stage u
    have hunder : (l.work i s.now (.exchange u rest)).under key = l.under key := rfl
    by_cases h : u.key = key <;>
      simp [hlog, hunder, Query.attempting, Pc.pending, hpc, Entry.sentUnder, h]
    omega
  | truncated _ hpc | answered _ hpc | retried _ hpc => simp [work, hpc] at hwork
  | @note u rest start out hpc =>
    rw [hpc] at hl ⊢
    refine ⟨by simp [Ledger.work, hl, Pc.pending], counts_note hl, ?_⟩
    rw [under_note hl]
    by_cases h : u.key = key <;>
      simp [Query.attempting, Pc.pending, hpc, Shared.noteAttempt, h]
    omega
  | @record _ _ out hpc | @unrecorded _ _ out hpc =>
    rw [hpc] at hl ⊢
    refine .quiet (by rw [hl, hpc]) ?_ rfl rfl
    rw [hpc]
    cases out <;> rfl

/-- An answer is written down, and the call waits for no other one or sends its retry. -/
theorem Kept.answered {x : Exchange} {r : Except Str Msg} (hl : l.pending i = q.pc.pending)
    (hx : q.pc.pending = some x)
    (hx' : q'.pc.pending = some { x with answered := x.answered.or (some r.isOk) })
    (hstats : s'.bstats = s.bstats)
    (hlog : s'.log.countP (Entry.sentUnder key) = s.log.countP (Entry.sentUnder key)) :
    Kept key i s s' q q' l (l.answer i r) := by
  refine ⟨?_, fun h => hstats ▸ h, ?_⟩
  · rw [hx', Ledger.answer, hl, hx]
    rfl
  · rw [hlog, Query.attempting, Query.attempting, hx, hx']
    rfl

theorem kept_of_answer (hkey : ∀ u : Upstream, u.overTcp.key ≠ key) {r : Except Str Msg}
    (hl : l.pending i = q.pc.pending) (hanswer : answer i r s q = some (s', q')) :
    Kept key i s s' q q' l (l.answer i r) := by
  unfold answer at hanswer
  split at hanswer
  · rename_i hpc
    cases hanswer
    exact .answered hl (by rw [hpc]; rfl) rfl rfl rfl
  · rename_i u _ _ _ hpc
    split_ifs at hanswer with htruncated <;> cases hanswer
    · refine .answered hl (by rw [hpc]; rfl) rfl (bstats_send _ _ _ _ _) ?_
      obtain ⟨via, hlog⟩ := log_send s i q.name q.stage u.overTcp
      rw [hlog, List.countP_cons]
      simp [Entry.sentUnder, hkey]
    · exact .answered hl (by rw [hpc]; rfl) rfl rfl rfl
  · rename_i hpc
    cases hanswer
    exact .answered hl (by rw [hpc]; rfl) rfl rfl rfl
  · rename_i hpc
    cases hanswer
    exact .answered hl (by rw [hpc]; rfl) rfl rfl rfl
  · cases hanswer

end Sections

namespace System

variable {f : Setup} {s s' : System} {l l' : Ledger} {key : Str}

structure Accounted (key : Str) (s : System) (l : Ledger) : Prop where
  pending : ∀ i, l.pending i = s.queries[i]?.bind fun q => q.pc.pending
  counts : ∀ key, (s.shared.bstats.lookup key).getD {} = .ofEnded (l.under key)
  sent : s.shared.log.countP (Entry.sentUnder key) = (l.under key).length + s.attempting key

theorem Accounted.call (h : Accounted key s l) {q : Query} (hpc : q.pc.pending = none) :
    Accounted key { s with queries := s.queries ++ [q] } l := by
  refine ⟨fun i => ?_, h.counts, ?_⟩
  · rw [h.pending]
    rcases lt_trichotomy i s.queries.length with hi | rfl | hi
    · rw [List.getElem?_append_left hi]
    · simp [hpc]
    · rw [List.getElem?_eq_none (by omega), List.getElem?_eq_none (by simp; omega)]
  · have hnone : q.attempting key = false := by rw [Query.attempting, hpc]; rfl
    rw [h.sent, attempting, attempting, List.countP_append, List.countP_singleton, hnone]
    rfl

theorem Accounted.act (h : Accounted key s l) {i : ℕ} {q q' : Query} {sh : Shared}
    (hq : s.queries[i]? = some q)
    (hk : l.pending i = q.pc.pending → Kept key i s.shared sh q q' l l') :
    Accounted key ⟨sh, s.queries.set i q'⟩ l' := by
  have hk := hk (by rw [h.pending, hq]; rfl)
  refine ⟨fun j => ?_, hk.counts h.counts, ?_⟩
  · rw [hk.pending, List.getElem?_set]
    have hi : i < s.queries.length := (List.getElem?_eq_some_iff.mp hq).1
    by_cases hij : i = j
    · subst hij
      simp [hi]
    · rw [Function.update_of_ne (Ne.symm hij), if_neg hij, h.pending]
  · have hcount := @countP_set _ _ _ (Query.attempting key) _ q' hq
    have hsent := hk.sent
    have hbefore := h.sent
    simp only [attempting] at hbefore ⊢
    omega

theorem Accounted.step (hkey : ∀ u : Upstream, u.overTcp.key ≠ key) (h : Accounted key s l)
    {e : Event} (hs : s.step f e = some s') : Accounted key s' (l.observe s e) := by
  cases e with
  | elapse | resetBackends =>
    cases hs
    exact ⟨h.pending, h.counts, h.sent⟩
  | setBackendEnabled =>
    simp only [System.step] at hs
    split_ifs at hs <;> cases hs <;> exact ⟨h.pending, h.counts, h.sent⟩
  | forward | forwardTo =>
    cases hs
    exact h.call rfl
  | work i =>
    obtain ⟨q, sh, q', hq, hwork, rfl⟩ := exists_of_act hs
    rw [Ledger.observe, hq]
    exact h.act hq fun hl => kept_of_work hl hwork
  | answer i r =>
    obtain ⟨q, sh, q', hq, hanswer, rfl⟩ := exists_of_act hs
    exact h.act hq fun hl => kept_of_answer hkey hl hanswer

theorem accounted_of_run {now : Time} {es : List Event} (hkey : ∀ u : Upstream, u.overTcp.key ≠ key)
    (h : Runs.run (watch f) (init now, {}) es = some (s, l)) : Accounted key s l := by
  refine @Runs.inv_of_steps _ _ _ _ _ _ (fun p => Accounted key p.1 p.2) ?_ ?_ h
  · exact ⟨fun _ => rfl, fun _ => rfl, rfl⟩
  · rintro ⟨s, l⟩ e ⟨s', l'⟩ hi hs
    obtain ⟨s₁, hs₁, heq⟩ := Option.map_eq_some_iff.mp hs
    cases heq
    exact hi.step hkey hs₁

theorem overTcp_key_ne {u : Upstream} (hbar : '|' ∉ u.net) (htcp : u.net ≠ "tcp".toList)
    (v : Upstream) : v.overTcp.key ≠ u.key := by
  intro heq
  have hno : '|' ∉ v.overTcp.net := by simp [Upstream.overTcp]
  exact htcp (Strings.append_cons_inj hno hbar heq).1.symm

theorem statSnapshot_eq {sh : Shared} {u : Upstream} {ended : List (Bool × Duration)}
    (h : (sh.bstats.lookup u.key).getD {} = .ofEnded ended) :
    sh.statSnapshot u =
      let bs := BackendStat.ofEnded ended
      let ok := bs.queries - bs.failures
      (bs.queries, bs.failures, if 0 < ok then bs.okLatency.tdiv ok else 0, bs.lastOK) := by
  unfold Shared.statSnapshot
  cases hlookup : sh.bstats.lookup u.key with
  | none =>
    rw [hlookup, Option.getD_none] at h
    rw [← h]
    rfl
  | some bs =>
    rw [hlookup, Option.getD_some] at h
    rw [h]

/-- In every interleaving the counters of an upstream are those of its exchanges that are over:
their number, which is that of the requests less the exchanges under way, and that of the ones whose
request was not answered. The mean latency is between any bounds on the latencies of the answered
ones, and the last latency is that of the last answered one. -/
theorem statSnapshot_exact {now : Time} {es : List Event}
    (h : Runs.run (watch f) (init now, {}) es = some (s, l)) {u : Upstream} (hbar : '|' ∉ u.net)
    (htcp : u.net ≠ "tcp".toList) {queries failures : ℕ} {avgRTT lastRTT : Duration}
    (hsnap : s.shared.statSnapshot u = (queries, failures, avgRTT, lastRTT)) :
    queries = (l.under u.key).length ∧
    queries + s.attempting u.key = s.shared.log.countP (Entry.sentUnder u.key) ∧
    failures = (l.under u.key).countP (fun a => !a.1) ∧
    (∀ lo hi, (∀ d, (true, d) ∈ l.under u.key → lo ≤ d ∧ d ≤ hi) →
      failures < queries → lo ≤ avgRTT ∧ avgRTT ≤ hi) ∧
    (∀ older d newer, l.under u.key = newer ++ (true, d) :: older →
      (∀ a ∈ newer, a.1 = false) → lastRTT = d) := by
  have hacc := accounted_of_run (overTcp_key_ne hbar htcp) h
  rw [statSnapshot_eq (hacc.counts u.key)] at hsnap
  simp only [Prod.mk.injEq] at hsnap
  obtain ⟨rfl, rfl, rfl, rfl⟩ := hsnap
  refine ⟨rfl, hacc.sent.symm, rfl, fun lo hi hd hlt => ?_, fun older d newer heq hnewer => ?_⟩
  · rw [if_pos (Nat.sub_pos_of_lt hlt)]
    simp only [BackendStat.ofEnded] at hlt ⊢
    rw [length_answered]
    refine mean_bounds ?_ fun d hmem => ?_
    · rw [← List.length_pos_iff, ← length_answered]
      exact Nat.sub_pos_of_lt hlt
    · obtain ⟨⟨ok, d'⟩, ha, rfl⟩ := List.mem_map.mp hmem
      obtain ⟨ha, hok⟩ := List.mem_filter.mp ha
      obtain rfl : ok = true := hok
      exact hd d' ha
  · simp only [BackendStat.ofEnded, heq]
    have hnone : newer.find? Prod.fst = none :=
      List.find?_eq_none.mpr fun a ha => by simp [hnewer a ha]
    simp [List.find?_append, hnone]

/-- A truncated answer comes after 3 and its retry over TCP fails after 7: one answered exchange. -/
theorem statSnapshot_truncated :
    let es : List Event := [.forwardTo [['9']] ['a'], .work 0, .work 0, .work 0, .elapse 3,
      .answer 0 (.ok { truncated := true }), .elapse 4, .answer 0 (.error []), .work 0]
    ∃ s l, Runs.run (watch oneServer) (init 0, {}) es = some (s, l) ∧
      s.shared.statSnapshot ⟨['9'], "udp".toList, []⟩ = (1, 0, 7, 7) ∧
      l.under "udp|9".toList = [(true, 7)] ∧
      1 + s.attempting "udp|9".toList = s.shared.log.countP (Entry.sentUnder "udp|9".toList) := by
  intro es
  obtain ⟨⟨s, l⟩, hs, hmap⟩ := Option.map_eq_some_iff.mp (show
    (Runs.run (watch oneServer) (init 0, {}) es).map
      (fun p => (p.1.shared.statSnapshot ⟨['9'], "udp".toList, []⟩, p.2.under "udp|9".toList)) =
      some ((1, 0, 7, 7), [(true, 7)]) by decide +kernel)
  obtain ⟨hsnap, hunder⟩ := Prod.mk.inj hmap
  exact ⟨s, l, hs, hsnap, hunder, (statSnapshot_exact hs (by decide) (by decide) hsnap).2.1⟩

end System

end SplitDNS.Forwarder
