import SplitDNS.Go.Slices
import SplitDNS.Qlog
import SplitDNS.Runs.Relations
import SplitDNS.Server.Clients
import SplitDNS.Server.Forward

/-! # Concurrent queries

Every query is served by a call of `ServeDNS` of its own. The calls share the
limiter, the slots for waits on a solicited host, the answer cache and the
published snapshot and view, and one step is one access of one call to them. A
call gives its place in the limiter back before it waits for a host, and what it
has deferred runs after its reply is handed to the writer: first the limiter,
then the record of the query.
-/

namespace SplitDNS.Server.Serving

open Go Go.Netip Dns Model Resolver

def odWaiters : ℕ := 64

structure Setup where
  newRR : NewRR
  trunc : Truncate
  rcode_trunc : ∀ size m, (trunc.run size m).rcode = m.rcode
  rcodeToString : Rcode → Str
  access : Netmatch.Access
  maxInflight : ℤ := 0
  onDemand : Bool := false
  forwarder : Bool := true
  queryLog : Bool := true

def Setup.limit (f : Setup) : ℕ := (if f.maxInflight ≤ 0 then 4096 else f.maxInflight).toNat

structure Result where
  decision : Qlog.Decision := .servfail
  rcode : Rcode := .serverFailure
  deriving DecidableEq

inductive Phase where
  | arrived
  | admitted
  | viewing (snap : Snapshot)
  | missed (snap : Snapshot) (label : Str)
  | asking (snap : Snapshot) (label : Str)
  | waiting (snap : Snapshot)
  | waited (snap : Snapshot)
  | acting (snap : Snapshot) (out : Outcome)
  | stubbing (snap : Snapshot)
  | upstream (snap : Snapshot) (p : Pending)
  | answered (snap : Snapshot) (p : Pending) (resp : Response)
  | returning
  | released
  | done

/-- A call of `ServeDNS`. Once `deferred` is set, the place in the limiter is given back at the
end if `holdSem` still stands. -/
structure Call where
  remote : NetAddr
  transport : Str
  req : Msg
  start : Time
  holdSem : Bool := true
  deferred : Bool := false
  res : Result := {}
  phase : Phase := .arrived

/-- The label of the transport: that of the writer, if it has one. -/
def transportOf (label : Option Str) (remote : NetAddr) : Str :=
  match label with
  | some (c :: label) => c :: label
  | _ => if isTCP remote then "tcp".toList else "udp".toList

inductive Effect where
  | replied (call : ℕ) (m : Msg)
  | solicited (call : ℕ) (label : Str)
  | recorded (call : ℕ) (e : Qlog.Entry)
  deriving DecidableEq

/-- What the calls share, and what was observed, the latest first. -/
structure Shared where
  sem : ℕ := 0
  odSem : ℕ := 0
  snapshot : Option Snapshot := none
  view : Option MDNSView := none
  cache : Option Anscache.Cache := none
  log : List Effect := []

namespace Shared

variable (s : Shared)

def logged (e : Effect) : Shared := { s with log := e :: s.log }

/-- `w.WriteMsg`: the message is handed to the writer. If it cannot be packed or sent nothing goes
out, but the error is only logged and the call goes on in the same way. -/
def write (i : ℕ) (m : Msg) : Shared := s.logged (.replied i m)

end Shared

namespace Call

variable (c : Call)

def request (allow : List Str) : Request := ⟨c.req, isTCP c.remote, allow⟩

/-- The call has a place in the limiter. -/
def busy : Bool :=
  c.deferred && c.holdSem &&
    match c.phase with
    | .released | .done => false
    | _ => true

def waits : Bool :=
  match c.phase with
  | .waiting _ => true
  | _ => false

end Call

/-- What a reply of the forward path leaves to be recorded. -/
def replyResult (res : Result) : Reply → Result
  | .fresh m => ⟨.cacheHit, m.rcode⟩
  | .live m => { res with rcode := m.rcode }
  | .stale m => ⟨.stale, m.rcode⟩
  | .failed => res

section Sections

variable (f : Setup) (i : ℕ) (now : Time) (s : Shared) (c : Call)

/-- The query is answered with a server failure, and what is recorded stays as it is. -/
def fail (allow : List Str) : Shared × Call :=
  (s.write i (refuse f.trunc (c.request allow) .serverFailure), { c with phase := .returning })

def enter : Shared × Call :=
  if (clientIP c.remote).isValid && !f.access.allowed (clientIP c.remote) then
    (s.write i (refuse f.trunc (c.request []) (.other 1)),
      { c with res := ⟨.refused, .other 1⟩, phase := .returning })
  else if s.sem < f.limit then
    ({ s with sem := s.sem + 1 }, { c with deferred := true, phase := .admitted })
  else if isTCP c.remote then fail f i s { c with res := { c.res with decision := .dropped } } []
  else (s, { c with res := { c.res with decision := .dropped }, phase := .returning })

def serveReply (snap : Snapshot) (cache : Option Anscache.Cache) (reply : Reply) : Shared × Call :=
  ({ s with cache }.write i (reply.written f.trunc (c.request snap.allowSuffix)),
    { c with res := replyResult c.res reply, phase := .returning })

def forwardCached (snap : Snapshot) : Shared × Call :=
  let c := { c with res := { c.res with decision := .forward } }
  if f.forwarder then
    match beforeUpstream s.cache c.req now with
    | (cache, .inl reply) => serveReply f i s c snap cache reply
    | (cache, .inr p) => ({ s with cache }, { c with phase := .upstream snap p })
  else fail f i s c snap.allowSuffix

def switch (snap : Snapshot) (out : Outcome) : Shared × Call :=
  match out.msg with
  | some m =>
    (s.write i (respond f.trunc (c.request snap.allowSuffix) m),
      { c with res := ⟨.localAnswer, m.rcode⟩, phase := .returning })
  | none =>
    if out.stub ≠ [] then
      let c := { c with res := { c.res with decision := .stub } }
      if f.forwarder then (s, { c with phase := .stubbing snap })
      else fail f i s c snap.allowSuffix
    else if out.forward then forwardCached f i now s c snap
    else fail f i s c snap.allowSuffix

def recordQuery (q : Question) : Qlog.Entry where
  time := c.start
  client := clientIP c.remote
  transport := c.transport
  name := q.name
  qtype := typeToString q.qtype
  decision := c.res.decision
  rcode := f.rcodeToString c.res.rcode
  latency := now - c.start

/-- The records of a call: one, if queries are recorded and this one has one question. -/
def records : List Qlog.Entry :=
  match c.req.question with
  | [q] => if f.queryLog then [recordQuery f now c q] else []
  | _ => []

def work : Option (Shared × Call) :=
  match c.phase with
  | .arrived => some (enter f i s c)
  | .admitted => some (s, { c with phase := .viewing (s.snapshot.getD {}) })
  | .viewing snap =>
    let out := resolve f.newRR snap (s.view.getD {}) c.req
    if out.localMiss && f.onDemand then some (s, { c with phase := .missed snap out.localLabel })
    else some (s, { c with phase := .acting snap out })
  | .missed snap label =>
    if s.sem = 0 then none
    else some
      ({ s with sem := s.sem - 1 }, { c with holdSem := false, phase := .asking snap label })
  | .asking snap label =>
    if s.odSem < odWaiters then
      some ({ s with odSem := s.odSem + 1 }.logged (.solicited i label),
        { c with phase := .waiting snap })
    else some (s, { c with phase := .waited snap })
  | .waited snap =>
    some (s, { c with phase := .acting snap (resolve f.newRR snap (s.view.getD {}) c.req) })
  | .acting snap out => some (switch f i now s c snap out)
  | .answered snap p resp =>
    let (cache, reply) := afterUpstream s.cache p resp now
    some (serveReply f i s c snap cache reply)
  | .returning =>
    if c.deferred && c.holdSem then
      if s.sem = 0 then none
      else some ({ s with sem := s.sem - 1 }, { c with phase := .released })
    else some (s, { c with phase := .released })
  | .released =>
    some ({ s with log := (records f now c).map (.recorded i) ++ s.log }, { c with phase := .done })
  | .waiting _ | .stubbing _ | .upstream _ _ | .done => none

def wake : Option (Shared × Call) :=
  match c.phase with
  | .waiting snap =>
    if s.odSem = 0 then none
    else some ({ s with odSem := s.odSem - 1 }, { c with phase := .waited snap })
  | _ => none

end Sections

/-- The forwarder comes back to a call, for stub targets or for the upstreams. -/
def answer (f : Setup) (i : ℕ) (resp : Response) (s : Shared) (c : Call) :
    Option (Shared × Call) :=
  match c.phase, resp with
  | .stubbing snap, .ok (some m) =>
    some (s.write i (respond f.trunc (c.request snap.allowSuffix) { m with id := c.req.id }),
      { c with res := { c.res with rcode := m.rcode }, phase := .returning })
  | .stubbing snap, _ => some (fail f i s c snap.allowSuffix)
  | .upstream snap p, resp => some (s, { c with phase := .answered snap p resp })
  | _, _ => none

/-- A query comes in, the control plane publishes or flushes, or a call takes a step. -/
inductive Event where
  | query (remote : NetAddr) (label : Option Str) (req : Msg) (start : Time)
  | publishSnapshot (snap : Snapshot)
  | publishView (view : MDNSView)
  | flush
  | work (call : ℕ) (now : Time)
  | wake (call : ℕ)
  | answer (call : ℕ) (resp : Response)

def Event.of (i : ℕ) : Event → Bool
  | .work j _ | .wake j | .answer j _ => i = j
  | _ => false

structure System where
  shared : Shared
  calls : List Call := []

namespace System

def init (cache : Option Anscache.Cache) : System := { shared := { cache } }

def act (s : System) (i : ℕ) (sec : Shared → Call → Option (Shared × Call)) : Option System :=
  match s.calls[i]? with
  | some c => (sec s.shared c).map fun p => ⟨p.1, s.calls.set i p.2⟩
  | none => none

def step (f : Setup) (s : System) : Event → Option System
  | .query remote label req start =>
    let call := { remote, transport := transportOf label remote, req, start }
    some { s with calls := s.calls ++ [call] }
  | .publishSnapshot snap => some { s with shared := { s.shared with snapshot := some snap } }
  | .publishView view => some { s with shared := { s.shared with view := some view } }
  | .flush =>
    some { s with shared := { s.shared with cache := s.shared.cache.map Anscache.Cache.flush } }
  | .work i now => s.act i (work f i now)
  | .wake i => s.act i wake
  | .answer i resp => s.act i (answer f i resp)

end System

/-! ## What a step can do -/

inductive Moves (f : Setup) (i : ℕ) (s : Shared) (c : Call) : Shared → Call → Prop where
  | refuse (hphase : c.phase = .arrived) :
      Moves f i s c (s.write i (refuse f.trunc (c.request []) (.other 1)))
        { c with res := ⟨.refused, .other 1⟩, phase := .returning }
  | overflow (hphase : c.phase = .arrived) (hfull : f.limit ≤ s.sem) :
      Moves f i s c
        (if isTCP c.remote then s.write i (Server.refuse f.trunc (c.request []) .serverFailure)
          else s)
        { c with res := { c.res with decision := .dropped }, phase := .returning }
  | enter (hphase : c.phase = .arrived) (hfree : s.sem < f.limit) :
      Moves f i s c { s with sem := s.sem + 1 } { c with deferred := true, phase := .admitted }
  | load (hphase : c.phase = .admitted) :
      Moves f i s c s { c with phase := .viewing (s.snapshot.getD {}) }
  | miss {snap : Snapshot} (label : Str) (hphase : c.phase = .viewing snap) :
      Moves f i s c s { c with phase := .missed snap label }
  | resolve {snap : Snapshot} (hphase : c.phase = .viewing snap ∨ c.phase = .waited snap) :
      Moves f i s c s
        { c with phase := .acting snap (resolve f.newRR snap (s.view.getD {}) c.req) }
  | leave {snap : Snapshot} {label : Str} (hphase : c.phase = .missed snap label)
      (hsem : s.sem ≠ 0) :
      Moves f i s c { s with sem := s.sem - 1 }
        { c with holdSem := false, phase := .asking snap label }
  | solicit {snap : Snapshot} {label : Str} (hphase : c.phase = .asking snap label)
      (hfree : s.odSem < odWaiters) :
      Moves f i s c ({ s with odSem := s.odSem + 1 }.logged (.solicited i label))
        { c with phase := .waiting snap }
  | degrade {snap : Snapshot} {label : Str} (hphase : c.phase = .asking snap label) :
      Moves f i s c s { c with phase := .waited snap }
  | wake {snap : Snapshot} (hphase : c.phase = .waiting snap) (hsem : s.odSem ≠ 0) :
      Moves f i s c { s with odSem := s.odSem - 1 } { c with phase := .waited snap }
  | reply {snap : Snapshot} {out : Outcome} {m : Msg} (hphase : c.phase = .acting snap out)
      (hmsg : out.msg = some m) :
      Moves f i s c (s.write i (respond f.trunc (c.request snap.allowSuffix) m))
        { c with res := ⟨.localAnswer, m.rcode⟩, phase := .returning }
  | stub {snap : Snapshot} {out : Outcome} (hphase : c.phase = .acting snap out) :
      Moves f i s c s { c with res := { c.res with decision := .stub }, phase := .stubbing snap }
  | stubbed {snap : Snapshot} (m : Msg) (hphase : c.phase = .stubbing snap) :
      Moves f i s c
        (s.write i (respond f.trunc (c.request snap.allowSuffix) { m with id := c.req.id }))
        { c with res := { c.res with rcode := m.rcode }, phase := .returning }
  | fail (allow : List Str) (decision : Qlog.Decision)
      (hphase : (∃ snap out, c.phase = .acting snap out) ∨ ∃ snap, c.phase = .stubbing snap)
      (hdecision : decision = c.res.decision ∨
        f.forwarder = false ∧ (decision = .stub ∨ decision = .forward)) :
      Moves f i s c (s.write i (Server.refuse f.trunc (c.request allow) .serverFailure))
        { c with res := { c.res with decision }, phase := .returning }
  | hit {snap : Snapshot} {out : Outcome} {now : Time} {cache : Option Anscache.Cache}
      {reply : Reply} (hphase : c.phase = .acting snap out)
      (hbefore : beforeUpstream s.cache c.req now = (cache, .inl reply)) :
      Moves f i s c
        ({ s with cache }.write i (reply.written f.trunc (c.request snap.allowSuffix)))
        { c with res := replyResult { c.res with decision := .forward } reply,
                 phase := .returning }
  | forward {snap : Snapshot} {out : Outcome} {now : Time} {cache : Option Anscache.Cache}
      {p : Pending} (hphase : c.phase = .acting snap out)
      (hbefore : beforeUpstream s.cache c.req now = (cache, .inr p)) :
      Moves f i s c { s with cache }
        { c with res := { c.res with decision := .forward }, phase := .upstream snap p }
  | answer {snap : Snapshot} {p : Pending} (resp : Response) (hphase : c.phase = .upstream snap p) :
      Moves f i s c s { c with phase := .answered snap p resp }
  | finish {snap : Snapshot} {p : Pending} {resp : Response} {now : Time}
      {cache : Option Anscache.Cache} {reply : Reply} (hphase : c.phase = .answered snap p resp)
      (hafter : afterUpstream s.cache p resp now = (cache, reply)) :
      Moves f i s c
        ({ s with cache }.write i (reply.written f.trunc (c.request snap.allowSuffix)))
        { c with res := replyResult c.res reply, phase := .returning }
  | release (hphase : c.phase = .returning) (hheld : c.deferred = true ∧ c.holdSem = true)
      (hsem : s.sem ≠ 0) :
      Moves f i s c { s with sem := s.sem - 1 } { c with phase := .released }
  | pass (hphase : c.phase = .returning) (hfree : ¬ (c.deferred = true ∧ c.holdSem = true)) :
      Moves f i s c s { c with phase := .released }
  | record (now : Time) (hphase : c.phase = .released) :
      Moves f i s c { s with log := (records f now c).map (.recorded i) ++ s.log }
        { c with phase := .done }

section Inversion

variable {f : Setup} {i : ℕ} {now : Time} {s s' : Shared} {c c' : Call} {snap : Snapshot}
  {out : Outcome}

theorem moves_enter (hphase : c.phase = .arrived) :
    Moves f i s c (enter f i s c).1 (enter f i s c).2 := by
  unfold enter
  split_ifs with hdenied hfree htcp
  · exact .refuse hphase
  · exact .enter hphase hfree
  · have hmoves := Moves.overflow (f := f) (i := i) hphase (not_lt.mp hfree)
    rw [if_pos htcp] at hmoves
    exact hmoves
  · have hmoves := Moves.overflow (f := f) (i := i) hphase (not_lt.mp hfree)
    rw [if_neg htcp] at hmoves
    exact hmoves

theorem moves_switch (hphase : c.phase = .acting snap out) :
    Moves f i s c (switch f i now s c snap out).1 (switch f i now s c snap out).2 := by
  unfold switch
  cases hmsg : out.msg with
  | some m => exact .reply hphase hmsg
  | none =>
    dsimp only
    split_ifs with hstub hon hforward
    · exact .stub hphase
    · exact .fail _ _ (.inl ⟨snap, out, hphase⟩) (.inr ⟨by simpa using hon, .inl rfl⟩)
    · unfold forwardCached
      dsimp only
      split_ifs with hon
      · rcases hbefore : beforeUpstream s.cache c.req now with ⟨cache, reply | p⟩
        · exact .hit hphase hbefore
        · exact .forward hphase hbefore
      · exact .fail _ _ (.inl ⟨snap, out, hphase⟩) (.inr ⟨by simpa using hon, .inr rfl⟩)
    · exact .fail _ c.res.decision (.inl ⟨snap, out, hphase⟩) (.inl rfl)

theorem moves_of_work (h : work f i now s c = some (s', c')) : Moves f i s c s' c' := by
  unfold work at h
  split at h <;> rename_i hphase
  · rw [Option.some.injEq] at h
    have hmoves := @moves_enter f i s c hphase
    rwa [h] at hmoves
  · cases h
    exact .load hphase
  · dsimp only at h
    split_ifs at h <;> cases h
    · exact .miss _ hphase
    · exact .resolve (.inl hphase)
  · split_ifs at h with hsem
    cases h
    exact .leave hphase hsem
  · split_ifs at h with hfree <;> cases h
    · exact .solicit hphase hfree
    · exact .degrade hphase
  · cases h
    exact .resolve (.inr hphase)
  · rw [Option.some.injEq] at h
    have hmoves := @moves_switch f i now s c _ _ hphase
    rwa [h] at hmoves
  · cases h
    exact .finish hphase rfl
  · split_ifs at h with hheld hsem <;> cases h
    · exact .release hphase (by simpa using hheld) hsem
    · exact .pass hphase (by simpa using hheld)
  · cases h
    exact .record now hphase
  all_goals cases h

theorem moves_of_wake (h : wake s c = some (s', c')) : Moves f i s c s' c' := by
  unfold wake at h
  split at h
  · rename_i hphase
    split_ifs at h with hsem
    cases h
    exact .wake hphase hsem
  · cases h

theorem moves_of_answer {resp : Response} (h : answer f i resp s c = some (s', c')) :
    Moves f i s c s' c' := by
  unfold answer at h
  split at h
  · rename_i hphase
    cases h
    exact .stubbed _ hphase
  · rename_i hphase _
    cases h
    exact .fail _ c.res.decision (.inr ⟨_, hphase⟩) (.inl rfl)
  · rename_i hphase
    cases h
    exact .answer _ hphase
  · cases h

/-- The way that a call has taken so far, by where it is. -/
def Call.OnCourse (c : Call) : Prop :=
  match c.phase with
  | .stubbing _ => c.res.decision = .stub
  | .upstream _ _ | .answered _ _ _ => c.res.decision = .forward
  | .returning | .released | .done => True
  | _ => c.res.decision = .servfail

theorem onCourse_of_moves (hcourse : c.OnCourse) (h : Moves f i s c s' c') : c'.OnCourse := by
  unfold Call.OnCourse at hcourse
  cases h with
  | refuse | overflow | reply | stubbed | fail | hit | finish | release | pass | record => trivial
  | stub | forward => rfl
  | resolve hphase =>
    rcases hphase with hphase | hphase
    · rwa [hphase] at hcourse
    · rwa [hphase] at hcourse
  | enter hphase | load hphase | miss _ hphase | leave hphase | solicit hphase | degrade hphase
    | wake hphase | answer _ hphase =>
    rw [hphase] at hcourse
    exact hcourse

end Inversion

namespace System

/-- One step of the server: a new call, a change of the control plane, or a step of a call. -/
inductive Steps (f : Setup) (s : System) : System → Prop where
  | query (remote : NetAddr) (label : Option Str) (req : Msg) (start : Time) :
      Steps f s { s with calls := s.calls ++
        [{ remote, transport := transportOf label remote, req, start }] }
  | control (snapshot : Option Snapshot) (view : Option MDNSView)
      (cache : Option Anscache.Cache) :
      Steps f s { s with shared := { s.shared with snapshot, view, cache } }
  | act {i : ℕ} {c c' : Call} {sh : Shared} (hc : s.calls[i]? = some c)
      (hmoves : Moves f i s.shared c sh c') : Steps f s ⟨sh, s.calls.set i c'⟩

variable {f : Setup} {s s' : System}

theorem exists_of_act {i : ℕ} {sec : Shared → Call → Option (Shared × Call)}
    (h : s.act i sec = some s') :
    ∃ c sh c', s.calls[i]? = some c ∧ sec s.shared c = some (sh, c') ∧
      s' = ⟨sh, s.calls.set i c'⟩ := by
  unfold act at h
  split at h
  · rename_i c hc
    obtain ⟨⟨sh, c'⟩, hsec, rfl⟩ := Option.map_eq_some_iff.mp h
    exact ⟨c, sh, c', hc, hsec, rfl⟩
  · cases h

theorem exists_moves {i : ℕ} {e : Event} (he : e.of i = true) (h : s.step f e = some s') :
    ∃ c sh c', s.calls[i]? = some c ∧ Moves f i s.shared c sh c' ∧
      s' = ⟨sh, s.calls.set i c'⟩ := by
  cases e with
  | work j now =>
    obtain rfl : i = j := by simpa [Event.of] using he
    obtain ⟨c, sh, c', hc, hwork, rfl⟩ := exists_of_act h
    exact ⟨c, sh, c', hc, moves_of_work hwork, rfl⟩
  | wake j =>
    obtain rfl : i = j := by simpa [Event.of] using he
    obtain ⟨c, sh, c', hc, hwake, rfl⟩ := exists_of_act h
    exact ⟨c, sh, c', hc, moves_of_wake hwake, rfl⟩
  | answer j resp =>
    obtain rfl : i = j := by simpa [Event.of] using he
    obtain ⟨c, sh, c', hc, hanswer, rfl⟩ := exists_of_act h
    exact ⟨c, sh, c', hc, moves_of_answer hanswer, rfl⟩
  | query | publishSnapshot | publishView | flush => simp [Event.of] at he

theorem steps_of_step {e : Event} (h : s.step f e = some s') : Steps f s s' := by
  cases e with
  | query remote label req start =>
    cases h
    exact .query remote label req start
  | publishSnapshot snap =>
    cases h
    exact .control (some snap) s.shared.view s.shared.cache
  | publishView view =>
    cases h
    exact .control s.shared.snapshot (some view) s.shared.cache
  | flush =>
    cases h
    exact .control s.shared.snapshot s.shared.view _
  | work i now =>
    obtain ⟨c, sh, c', hc, hmoves, rfl⟩ := exists_moves (i := i) (by simp [Event.of]) h
    exact .act hc hmoves
  | wake i =>
    obtain ⟨c, sh, c', hc, hmoves, rfl⟩ := exists_moves (i := i) (by simp [Event.of]) h
    exact .act hc hmoves
  | answer i resp =>
    obtain ⟨c, sh, c', hc, hmoves, rfl⟩ := exists_moves (i := i) (by simp [Event.of]) h
    exact .act hc hmoves

end System

theorem System.onCourse_of_run {f : Setup} {cache : Option Anscache.Cache} {es : List Event}
    {s : System} (h : Runs.run (System.step f) (System.init cache) es = some s) :
    ∀ c ∈ s.calls, c.OnCourse := by
  refine @Runs.inv_of_steps _ _ _ _ _ _ (fun s : System => ∀ c ∈ s.calls, c.OnCourse)
    (by simp [init]) (fun s _ s' hi hs c hc => ?_) h
  cases steps_of_step hs with
  | query =>
    rcases List.mem_append.mp hc with hc | hc
    · exact hi c hc
    · rw [List.mem_singleton.mp hc]
      rfl
  | control => exact hi c hc
  | act hc₁ hmoves =>
    rcases List.mem_or_eq_of_mem_set hc with hc | rfl
    · exact hi c hc
    · exact onCourse_of_moves (hi _ (List.mem_of_getElem? hc₁)) hmoves

def oneAtATime : Setup where
  newRR := readLine
  trunc := default
  rcode_trunc := fun _ _ => rfl
  rcodeToString := fun rcode => if rcode = .nameError then "NXDOMAIN".toList else []
  access := { allow := some [⟨.v4 0, 0⟩] }
  maxInflight := 1

end SplitDNS.Server.Serving
