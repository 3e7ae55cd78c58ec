import SplitDNS.Forwarder.TryAll
import SplitDNS.Go.Slices
import SplitDNS.Runs.Relations

/-! # Concurrent queries

Any number of calls of `Forward` and `ForwardTo` share one forwarder. Each call
walks over its upstreams on its own; what it shares with the others (the breakers,
the disabled addresses, the clients and the counters) it touches in short critical
sections, and the others may run between any two of them and while it waits for an
answer.
-/

namespace SplitDNS.Forwarder

open Go Dns

structure Setup where
  primary : List Upstream
  fallback : List Upstream
  cleartext : Bool
  breakerEnabled : Bool := true
  policy : Policy := defaultPolicy
  nets : ∀ u ∈ primary ++ fallback, '|' ∉ u.net

/-- A `dns.Client`, with the name it checks a certificate against if it uses TLS. -/
structure Client where
  net : Str
  serverName : Option Str
  deriving DecidableEq, Repr

def Upstream.client (u : Upstream) : Client :=
  ⟨u.net, if u.net = "tcp-tls".toList then some u.serverName else none⟩

structure BackendStat where
  queries : ℕ := 0
  failures : ℕ := 0
  okLatency : Duration := 0
  lastOK : Duration := 0
  deriving DecidableEq, Repr

/-- The part of a call that runs: `Forward` on its upstreams or on the cleartext ones, or
`ForwardTo`. -/
inductive Stage where
  | primary
  | fallback
  | stub
  deriving DecidableEq, Repr

def Stage.requireSNI : Stage → Bool
  | primary => true
  | _ => false

inductive Entry where
  | audited (query : ℕ) (text : Str)
  | sent (query : ℕ) (name : Str) (stage : Stage) (via : Client) (u : Upstream)
  deriving DecidableEq, Repr

/-- What the calls share, and what was observed, the latest first. -/
structure Shared where
  now : Time
  breakers : Map Str Breaker := ∅
  disabled : Finset Str := ∅
  clients : Map Str Client := ∅
  bstats : Map Str BackendStat := ∅
  log : List Entry := []

/-- Where a call is in `tryAll`, with the upstreams after the current one. -/
inductive Pc where
  | turn (rest : List Upstream)
  | allow (u : Upstream) (rest : List Upstream)
  | exchange (u : Upstream) (rest : List Upstream)
  | waiting (u : Upstream) (rest : List Upstream) (start : Time)
  | retrying (u : Upstream) (rest : List Upstream) (start : Time) (resp : Msg)
  | note (u : Upstream) (rest : List Upstream) (start : Time) (out : Except Str Msg)
  | record (u : Upstream) (rest : List Upstream) (out : Except Str Msg)
  | returned (out : Except Str (Option Msg))

/-- A call: the name it asks for, its upstreams at this stage, and the variables of `tryAll`. -/
structure Query where
  name : Str
  stage : Stage
  ups : List Upstream
  forced : Bool := false
  allowedAny : Bool := false
  lastErr : Option Str := none
  pc : Pc

namespace Shared

variable (s : Shared)

def logged (e : Entry) : Shared := { s with log := e :: s.log }

/-- The client for the transport and server name of an upstream, made when it is first needed. -/
def clientFor (u : Upstream) : Shared × Client :=
  match s.clients.lookup (u.net ++ '|' :: u.serverName) with
  | some c => (s, c)
  | none =>
    ({ s with clients := s.clients.insert (u.net ++ '|' :: u.serverName) u.client }, u.client)

def send (i : ℕ) (name : Str) (stage : Stage) (u : Upstream) : Shared :=
  (s.clientFor u).1.logged (.sent i name stage (s.clientFor u).2 u)

def setBreaker (u : Upstream) (b : Breaker) : Shared :=
  { s with breakers := s.breakers.insert u.key b }

def noteAttempt (u : Upstream) (ok : Bool) (d : Duration) : Shared :=
  let bs := (s.bstats.lookup u.key).getD {}
  let bs := { bs with queries := bs.queries + 1 }
  let bs :=
    if ok then { bs with okLatency := bs.okLatency + d, lastOK := d }
    else { bs with failures := bs.failures + 1 }
  { s with bstats := s.bstats.insert u.key bs }

end Shared

/-- The same address over TCP, for an answer that did not fit a datagram. -/
def Upstream.overTcp (u : Upstream) : Upstream := { addr := u.addr, net := "tcp".toList }

def Upstream.exchangeError (u : Upstream) (err : Str) : Str :=
  u.net ++ ' ' :: u.addr ++ ": ".toList ++ err

namespace Query

variable (q : Query)

/-- An upstream is passed over. Only the first pass says why. -/
def skip (rest : List Upstream) (err : Str) : Query :=
  { q with pc := .turn rest, lastErr := if q.forced then q.lastErr else some err }

/-- An attempt is over: its response is returned, or the next upstream has its turn. -/
def settle (rest : List Upstream) : Except Str Msg → Query
  | .ok resp => { q with pc := .returned (.ok (some resp)) }
  | .error err => { q with lastErr := some err, pc := .turn rest }

end Query

section Sections

variable (f : Setup) (i : ℕ) (s : Shared) (q : Query)

def downgrade (err name : Str) : Str :=
  "forwarder: DoT failed (".toList ++ err ++ "); falling back to cleartext for ".toList ++ name

/-- `tryAll` has no more upstreams: the caller takes its result. -/
def leave : Shared × Query :=
  match q.lastErr, q.stage with
  | none, _ => (s, { q with pc := .returned (.ok none) })
  | some err, .primary =>
    if f.cleartext then
      (s.logged (.audited i (downgrade err q.name)),
        { name := q.name, stage := .fallback, ups := f.fallback, pc := .turn f.fallback })
    else
      (s, { q with pc := .returned (.error
        ("forwarder: all DoT upstreams failed (cleartext disabled): ".toList ++ err)) })
  | some err, .fallback =>
    (s, { q with pc := .returned (.error ("forwarder: all upstreams failed: ".toList ++ err)) })
  | some err, .stub =>
    (s, { q with pc := .returned (.error ("forwarder: all stub targets failed: ".toList ++ err)) })

def turn (u : Upstream) (rest : List Upstream) : Query :=
  if lacksServerName q.stage.requireSNI u then
    q.skip rest ("no TLS server name for ".toList ++ u.addr)
  else if u.addr ∈ s.disabled then
    q.skip rest ("forwarder: ".toList ++ u.addr ++ " manually disabled".toList)
  else if q.forced then { q with pc := .exchange u rest }
  else if f.breakerEnabled then { q with pc := .allow u rest }
  else { q with allowedAny := true, pc := .exchange u rest }

/-- The next section of a call that does not wait for an answer. -/
def work : Option (Shared × Query) :=
  match q.pc with
  | .turn [] =>
    if f.breakerEnabled && !q.allowedAny && !q.forced then
      some (s, { q with forced := true, pc := .turn q.ups })
    else some (leave f i s q)
  | .turn (u :: rest) => some (s, turn f s q u rest)
  | .allow u rest =>
    let (b, ok) := (breakerFor f.policy s.breakers u).allow s.now
    if ok then some (s.setBreaker u b, { q with allowedAny := true, pc := .exchange u rest })
    else some (s.setBreaker u b, q.skip rest ("forwarder: breaker open for ".toList ++ u.addr))
  | .exchange u rest => some (s.send i q.name q.stage u, { q with pc := .waiting u rest s.now })
  | .note u rest start out =>
    some (s.noteAttempt u out.isOk (s.now - start), { q with pc := .record u rest out })
  | .record u rest out =>
    if f.breakerEnabled then
      let b := (breakerFor f.policy s.breakers u).record s.now out.isOk
      some (s.setBreaker u b, q.settle rest out)
    else some (s, q.settle rest out)
  | .waiting _ _ _ | .retrying _ _ _ _ | .returned _ => none

end Sections

def answer (i : ℕ) (r : Except Str Msg) (s : Shared) (q : Query) : Option (Shared × Query) :=
  match q.pc, r with
  | .waiting u rest start, .error err =>
    some (s, { q with pc := .note u rest start (.error (u.exchangeError err)) })
  | .waiting u rest start, .ok resp =>
    if resp.truncated && u.net = "udp".toList then
      some (s.send i q.name q.stage u.overTcp, { q with pc := .retrying u rest start resp })
    else some (s, { q with pc := .note u rest start (.ok resp) })
  | .retrying u rest start _, .ok tcp => some (s, { q with pc := .note u rest start (.ok tcp) })
  | .retrying u rest start resp, .error _ =>
    some (s, { q with pc := .note u rest start (.ok resp) })
  | _, _ => none

inductive Event where
  | elapse (d : ℕ)
  | forward (name : Str)
  | forwardTo (targets : List Str) (name : Str)
  | setBackendEnabled (addr : Str) (enabled : Bool)
  | resetBackends
  | work (query : ℕ)
  | answer (query : ℕ) (r : Except Str Msg)

structure System where
  shared : Shared
  queries : List Query := []

def Setup.knownAddr (f : Setup) (addr : Str) : Bool :=
  f.primary.any (·.addr = addr) || f.fallback.any (·.addr = addr)

namespace System

def init (now : Time) : System := { shared := { now } }

def act (s : System) (i : ℕ) (sec : Shared → Query → Option (Shared × Query)) : Option System :=
  match s.queries[i]? with
  | some q => (sec s.shared q).map fun p => ⟨p.1, s.queries.set i p.2⟩
  | none => none

def step (f : Setup) (s : System) : Event → Option System
  | .elapse d => some { s with shared := { s.shared with now := s.shared.now + d } }
  | .forward name =>
    some { s with queries := s.queries ++
      [{ name, stage := .primary, ups := f.primary, pc := .turn f.primary }] }
  | .forwardTo targets name =>
    let ups := targets.map fun addr => { addr, net := "udp".toList }
    some { s with queries := s.queries ++ [{ name, stage := .stub, ups, pc := .turn ups }] }
  | .setBackendEnabled addr enabled =>
    if f.knownAddr addr then
      let disabled :=
        if enabled then s.shared.disabled.erase addr else insert addr s.shared.disabled
      some { s with shared := { s.shared with disabled } }
    else some s
  | .resetBackends => some { s with shared := { s.shared with disabled := ∅ } }
  | .work i => s.act i (work f i)
  | .answer i r => s.act i (answer i r)

end System

/-! ## What a section can do -/

inductive Moves (f : Setup) (i : ℕ) (s : Shared) (q : Query) : Shared → Query → Prop where
  | skip {u rest} (err : Str) (hpc : q.pc = .turn (u :: rest)) : Moves f i s q s (q.skip rest err)
  | guarded {u rest} (hpc : q.pc = .turn (u :: rest))
      (hname : lacksServerName q.stage.requireSNI u = false) (hdisabled : u.addr ∉ s.disabled)
      (hpass : q.forced = false) : Moves f i s q s { q with pc := .allow u rest }
  | unguarded {u rest} (hpc : q.pc = .turn (u :: rest))
      (hname : lacksServerName q.stage.requireSNI u = false) (hdisabled : u.addr ∉ s.disabled)
      (hpass : q.forced = false) (hoff : f.breakerEnabled = false) :
      Moves f i s q s { q with allowedAny := true, pc := .exchange u rest }
  | forced {u rest} (hpc : q.pc = .turn (u :: rest))
      (hname : lacksServerName q.stage.requireSNI u = false) (hdisabled : u.addr ∉ s.disabled)
      (hpass : q.forced = true) : Moves f i s q s { q with pc := .exchange u rest }
  | again (hpc : q.pc = .turn []) (hpass : q.forced = false) (hnone : q.allowedAny = false) :
      Moves f i s q s { q with forced := true, pc := .turn q.ups }
  | downgrade (err : Str) (hpc : q.pc = .turn []) (hstage : q.stage = .primary)
      (hcleartext : f.cleartext = true) :
      Moves f i s q (s.logged (.audited i (downgrade err q.name)))
        { name := q.name, stage := .fallback, ups := f.fallback, pc := .turn f.fallback }
  | giveUp (out : Except Str (Option Msg)) (hpc : q.pc = .turn []) :
      Moves f i s q s { q with pc := .returned out }
  | refused {u rest} (err : Str) (hpc : q.pc = .allow u rest)
      (hrefused : ((breakerFor f.policy s.breakers u).allow s.now).2 = false) :
      Moves f i s q
        (s.setBreaker u ((breakerFor f.policy s.breakers u).allow s.now).1)
        (q.skip rest err)
  | allowed {u rest} (hpc : q.pc = .allow u rest)
      (hallowed : ((breakerFor f.policy s.breakers u).allow s.now).2 = true) :
      Moves f i s q
        (s.setBreaker u ((breakerFor f.policy s.breakers u).allow s.now).1)
        { q with allowedAny := true, pc := .exchange u rest }
  | send {u rest} (hpc : q.pc = .exchange u rest) :
      Moves f i s q (s.send i q.name q.stage u) { q with pc := .waiting u rest s.now }
  | truncated {u rest start} (resp : Msg) (hpc : q.pc = .waiting u rest start)
      (hudp : u.net = "udp".toList) :
      Moves f i s q (s.send i q.name q.stage u.overTcp) { q with pc := .retrying u rest start resp }
  | answered {u rest start} (out : Except Str Msg) (hpc : q.pc = .waiting u rest start) :
      Moves f i s q s { q with pc := .note u rest start out }
  | retried {u rest start resp} (out : Except Str Msg) (hpc : q.pc = .retrying u rest start resp) :
      Moves f i s q s { q with pc := .note u rest start out }
  | note {u rest start out} (hpc : q.pc = .note u rest start out) :
      Moves f i s q (s.noteAttempt u out.isOk (s.now - start)) { q with pc := .record u rest out }
  | record {u rest out} (hpc : q.pc = .record u rest out) (hon : f.breakerEnabled = true) :
      Moves f i s q
        (s.setBreaker u ((breakerFor f.policy s.breakers u).record s.now out.isOk))
        (q.settle rest out)
  | unrecorded {u rest out} (hpc : q.pc = .record u rest out) (hoff : f.breakerEnabled = false) :
      Moves f i s q s (q.settle rest out)

section Inversion

variable {f : Setup} {i : ℕ} {s s' : Shared} {q q' : Query}

theorem moves_leave (hpc : q.pc = .turn []) :
    Moves f i s q (leave f i s q).1 (leave f i s q).2 := by
  unfold leave
  split
  · exact .giveUp _ hpc
  · rename_i err _ hstage
    split_ifs with hcleartext
    · exact .downgrade err hpc hstage hcleartext
    · exact .giveUp _ hpc
  · exact .giveUp _ hpc
  · exact .giveUp _ hpc

theorem moves_turn {u : Upstream} {rest : List Upstream} (hpc : q.pc = .turn (u :: rest)) :
    Moves f i s q s (turn f s q u rest) := by
  unfold turn
  split_ifs with hname hdisabled hforced hon
  · exact .skip _ hpc
  · exact .skip _ hpc
  · exact .forced hpc (by simpa using hname) hdisabled hforced
  · exact .guarded hpc (by simpa using hname) hdisabled (by simpa using hforced)
  · exact .unguarded hpc (by simpa using hname) hdisabled (by simpa using hforced)
      (by simpa using hon)

theorem moves_of_work (h : work f i s q = some (s', q')) : Moves f i s q s' q' := by
  unfold work at h
  split at h <;> rename_i hpc
  · split_ifs at h with hagain
    · cases h
      simp only [Bool.and_eq_true, Bool.not_eq_true'] at hagain
      exact .again hpc hagain.2 hagain.1.2
    · rw [Option.some.injEq] at h
      have hmoves : Moves f i s q _ _ := moves_leave hpc
      rw [h] at hmoves
      exact hmoves
  · cases h
    exact moves_turn hpc
  · dsimp only at h
    split_ifs at h with hallowed <;> cases h
    · exact .allowed hpc hallowed
    · exact .refused _ hpc (by simpa using hallowed)
  · cases h
    exact .send hpc
  · cases h
    exact .note hpc
  · dsimp only at h
    split_ifs at h with hon <;> cases h
    · exact .record hpc hon
    · exact .unrecorded hpc (by simpa using hon)
  all_goals cases h

theorem moves_of_answer {r : Except Str Msg} (h : answer i r s q = some (s', q')) :
    Moves f i s q s' q' := by
  unfold answer at h
  split at h
  · rename_i hpc
    cases h
    exact .answered _ hpc
  · rename_i hpc
    split_ifs at h with htruncated <;> cases h
    · exact .truncated _ hpc (by simpa using (Bool.and_eq_true_iff.mp htruncated).2)
    · exact .answered _ hpc
  · rename_i hpc
    cases h
    exact .retried _ hpc
  · rename_i hpc
    cases h
    exact .retried _ hpc
  · cases h

end Inversion

namespace System

/-- One step of the forwarder: time, a new call, the disabled addresses, or a section of a call. -/
inductive Steps (f : Setup) (s : System) : System → Prop where
  | elapse (d : ℕ) : Steps f s { s with shared := { s.shared with now := s.shared.now + d } }
  | call (q : Query) (hstage : q.stage = .primary ∧ q.ups = f.primary ∨
        q.stage = .stub ∧ ∀ u ∈ q.ups, u.net = "udp".toList) (hpc : q.pc = .turn q.ups)
      (hnew : q.forced = false ∧ q.allowedAny = false) :
      Steps f s { s with queries := s.queries ++ [q] }
  | switch (disabled : Finset Str) : Steps f s { s with shared := { s.shared with disabled } }
  | act {i : ℕ} {q q' : Query} {sh : Shared} (hq : s.queries[i]? = some q)
      (hmoves : Moves f i s.shared q sh q') : Steps f s ⟨sh, s.queries.set i q'⟩

variable {f : Setup} {s s' : System}

theorem exists_of_act {i : ℕ} {sec : Shared → Query → Option (Shared × Query)}
    (h : s.act i sec = some s') :
    ∃ q sh q', s.queries[i]? = some q ∧ sec s.shared q = some (sh, q') ∧
      s' = ⟨sh, s.queries.set i q'⟩ := by
  unfold act at h
  split at h
  · rename_i q hq
    obtain ⟨⟨sh, q'⟩, hsec, rfl⟩ := Option.map_eq_some_iff.mp h
    exact ⟨q, sh, q', hq, hsec, rfl⟩
  · cases h

theorem steps_of_step {e : Event} (h : s.step f e = some s') : Steps f s s' := by
  cases e with
  | elapse d =>
    cases h
    exact .elapse d
  | forward name =>
    cases h
    exact .call _ (.inl ⟨rfl, rfl⟩) rfl ⟨rfl, rfl⟩
  | forwardTo targets name =>
    cases h
    refine .call _ (.inr ⟨rfl, ?_⟩) rfl ⟨rfl, rfl⟩
    simp
  | setBackendEnabled addr enabled =>
    simp only [step] at h
    split_ifs at h <;> cases h
    · exact .switch _
    · exact .switch _
    · exact .switch s.shared.disabled
  | resetBackends =>
    cases h
    exact .switch ∅
  | work i =>
    obtain ⟨q, sh, q', hq, hwork, rfl⟩ := exists_of_act h
    exact .act hq (moves_of_work hwork)
  | answer i r =>
    obtain ⟨q, sh, q', hq, hanswer, rfl⟩ := exists_of_act h
    exact .act hq (moves_of_answer hanswer)

end System

end SplitDNS.Forwarder
