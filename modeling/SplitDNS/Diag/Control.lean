import Mathlib.Algebra.Order.Ring.Int
import Mathlib.Data.List.Infix
import Mathlib.Tactic.Linarith
import SplitDNS.Go.Maps
import SplitDNS.Go.Netip
import SplitDNS.Go.Strings
import SplitDNS.Runs.Relations

/-! # Control actions

The requests under `/control/`, which may restart the daemon. A request passes
the guards of the endpoint and the defence against other sites, then the password
or the loopback bind, then the limit on how often its action may run. The lock is
taken anew for the backoff, for the result of the comparison and for the limit,
so requests interleave between these three. The callbacks of an action follow its
pass of the limit and are recorded with it.
-/

namespace SplitDNS.Diag

open Go Go.Netip

/-- `RemoteAddr`: a Unix socket has no host and port, and a host may not parse. -/
inductive Remote where
  | unix
  | host (ip : Option Addr)
  deriving DecidableEq

structure Request where
  remote : Remote := .unix
  method : Str
  path : Str
  secFetchSite : Str := []
  diagControl : Str := []
  diagPassword : Str := []
  formPassword : Str := []
  accept : Str := []
  op : Str := []
  addr : Str := []
  deriving DecidableEq

/-- The control plane's settings. A callback that is missing makes its action unavailable;
`setBackend` says which upstreams are known. -/
structure Controls where
  allowControl : Bool
  password : Str
  flushCache : Bool := true
  refreshMirror : Bool := true
  restart : Bool := true
  setBackend : Option (Str → Bool) := none
  resetBackends : Bool := true

/-- The endpoint: its controls, whether it is bound to the loopback only, and the sources it
allows. -/
structure Server where
  controls : Controls
  loopback : Bool
  allow : Option (Addr → Bool) := none

inductive Call where
  | flushCache
  | refreshMirror
  | restart
  | setBackend (addr : Str) (enabled : Bool)
  | resetBackends
  deriving DecidableEq

structure Response where
  status : ℕ
  body : Str
  deriving DecidableEq

structure Ctl where
  authFails : ℕ := 0
  authBlockUntil : Time := zeroTime
  ctlLast : Map Str Time := ∅

/-! ## The guards -/

def accessGuard (srv : Server) (r : Request) : Bool :=
  match srv.allow, r.remote with
  | none, _ => true
  | some _, .unix => true
  | some _, .host none => false
  | some allow, .host (some ip) => allow ip.unmap

def controlsActive (srv : Server) : Bool :=
  srv.controls.allowControl && (srv.controls.password ≠ [] || srv.loopback)

def controlPath : Str := "/control/".toList

def routed (srv : Server) (r : Request) : Bool :=
  accessGuard srv r && controlsActive srv && controlPath <+: r.path

def Request.action (r : Request) : Str := r.path.drop controlPath.length

/-- What `handleControl` refuses before it looks at who asks. -/
def refuse (r : Request) : Option Response :=
  if r.method ≠ "POST".toList then some ⟨405, "control actions are POST-only".toList⟩
  else if r.secFetchSite ≠ [] ∧ r.secFetchSite ≠ "same-origin".toList ∧
      r.secFetchSite ≠ "none".toList then
    some ⟨403, "cross-site control request refused".toList⟩
  else if r.diagControl ≠ "1".toList then
    some ⟨403, "control requests require the X-Diag-Control: 1 header".toList⟩
  else none

/-! ## The password -/

/-- The delay after so many failed attempts in a row. -/
def authBackoff (n : ℕ) : Duration :=
  if n ≤ 5 then 0
  else
    let d := second * 2 ^ min (n - 6) 5
    if d < 30 * second then d else 30 * second

def authBackoffActive (ctl : Ctl) (now : Time) : Duration := max (ctl.authBlockUntil - now) 0

def authFailed (ctl : Ctl) (now : Time) : Ctl :=
  let authFails := ctl.authFails + 1
  { ctl with
    authFails
    authBlockUntil :=
      if 0 < authBackoff authFails then now + authBackoff authFails else ctl.authBlockUntil }

def authSucceeded (ctl : Ctl) : Ctl := { ctl with authFails := 0, authBlockUntil := zeroTime }

/-- How `controlAuthorized` goes on after the lock was taken for the first time. -/
inductive Gate where
  | refused (resp : Response)
  | compare
  | pass

def gate (srv : Server) (ctl : Ctl) (now : Time) : Gate :=
  if ¬srv.controls.allowControl then
    .refused ⟨403, "control actions are disabled (set [diag] allow_control)".toList⟩
  else if srv.controls.password ≠ [] then
    if 0 < authBackoffActive ctl now then
      .refused ⟨429, "too many failed attempts; retry shortly".toList⟩
    else .compare
  else if ¬srv.loopback then
    .refused ⟨403, "control_password required for a non-loopback bind".toList⟩
  else .pass

/-- The password of a request; the header comes before the form. -/
def Request.password (r : Request) : Str :=
  if r.diagPassword = [] then r.formPassword else r.diagPassword

def comparePassword (srv : Server) (ctl : Ctl) (now : Time) (r : Request) : Ctl × Bool :=
  if r.password ≠ srv.controls.password then (authFailed ctl now, false)
  else (authSucceeded ctl, true)

/-! ## The actions -/

def controlMinInterval (action : Str) : Duration :=
  if action = "refresh-mirror".toList then 10 * second
  else if action = "restart".toList then 10 * second
  else if action = "selftest".toList then 2 * second
  else if action = "ddns-simulate".toList then second
  else if action = "tquery".toList then second / 4
  else 0

def controlRateOK (ctl : Ctl) (now : Time) (action : Str) : Ctl × Bool :=
  let iv := controlMinInterval action
  if iv = 0 then (ctl, true)
  else if (ctl.ctlLast.lookup action).any fun last => now - last < iv then (ctl, false)
  else ({ ctl with ctlLast := ctl.ctlLast.insert action now }, true)

def controlOK (r : Request) (msg : Str) : Response :=
  if "text/html".toList <:+: r.accept then ⟨303, []⟩ else ⟨200, msg⟩

def unavailable (msg : Str) : Response × List Call := (⟨404, msg⟩, [])

/-- The `switch` over the actions, with the callbacks it calls. -/
def dispatch (c : Controls) (r : Request) : Response × List Call :=
  if r.action = "verify".toList then (⟨200, "ok".toList⟩, [])
  else if r.action = "flush-cache".toList then
    if ¬c.flushCache then unavailable "flush-cache unavailable (no cache)".toList
    else (controlOK r "answer cache flushed".toList, [.flushCache])
  else if r.action = "refresh-mirror".toList then
    if ¬c.refreshMirror then unavailable "refresh-mirror unavailable".toList
    else (controlOK r "mirror refresh triggered".toList, [.refreshMirror])
  else if r.action = "restart".toList then
    if ¬c.restart then unavailable "restart unavailable".toList
    else (controlOK r "restarting daemon".toList, [.restart])
  else if r.action = "backend".toList then
    match c.setBackend with
    | none => unavailable "backend control unavailable".toList
    | some known =>
      if r.op = "reset".toList then
        (controlOK r "backend overrides reset to defaults".toList,
          if c.resetBackends then [.resetBackends] else [])
      else if r.op = "enable".toList ∨ r.op = "disable".toList then
        let call := Call.setBackend r.addr (r.op = "enable".toList)
        if ¬known r.addr then (⟨404, "unknown backend addr".toList⟩, [call])
        else (controlOK r ("backend ".toList ++ r.addr ++ ' ' :: r.op ++ ['d']), [call])
      else (⟨400, "op must be enable, disable, or reset".toList⟩, [])
  else (⟨404, "unknown control action".toList⟩, [])

/-! ## Requests at the same time -/

/-- A pass of `controlRateOK`, at the time of the lock. A control action has a request, and the
callbacks that it calls after the lock is released. -/
structure Entry where
  action : Str
  time : Time
  request : Option Request := none
  calls : List Call := []

/-- The requests at work. `checked` have passed the backoff and not yet compared their password;
`authorized` may act. The log has the latest entry first; `wrong` and `right` count the
passwords that were compared. -/
structure Plane where
  now : Time
  ctl : Ctl := {}
  checked : List Request := []
  authorized : List Request := []
  log : List Entry := []
  wrong : ℕ := 0
  right : ℕ := 0

/-- A request arrives, one that was checked compares its password, one that is authorized acts, or
one of the read-only pages asks for its own limit. -/
inductive ControlEvent where
  | elapse (d : Duration)
  | request (r : Request)
  | compare (i : ℕ)
  | act (i : ℕ)
  | probe (action : Str)

namespace Plane

def receive (srv : Server) (s : Plane) (r : Request) : Plane :=
  if routed srv r ∧ refuse r = none then
    match gate srv s.ctl s.now with
    | .refused _ => s
    | .compare => { s with checked := r :: s.checked }
    | .pass => { s with authorized := r :: s.authorized }
  else s

def compare (srv : Server) (s : Plane) (i : ℕ) (r : Request) : Plane :=
  match comparePassword srv s.ctl s.now r with
  | (ctl, false) => { s with ctl, checked := s.checked.eraseIdx i, wrong := s.wrong + 1 }
  | (ctl, true) =>
    { s with
      ctl
      checked := s.checked.eraseIdx i
      authorized := r :: s.authorized
      right := s.right + 1 }

def limit (s : Plane) (action : Str) (request : Option Request) (calls : List Call) : Plane :=
  match controlRateOK s.ctl s.now action with
  | (_, false) => s
  | (ctl, true) => { s with ctl, log := ⟨action, s.now, request, calls⟩ :: s.log }

def step (srv : Server) (s : Plane) : ControlEvent → Option Plane
  | .elapse d => if 0 ≤ d then some { s with now := s.now + d } else none
  | .request r => some (s.receive srv r)
  | .compare i => (s.checked[i]?).map (s.compare srv i)
  | .act i =>
    (s.authorized[i]?).map fun r =>
      { s with authorized := s.authorized.eraseIdx i }.limit r.action (some r)
        (dispatch srv.controls r).2
  | .probe action => some (s.limit action none [])

end Plane

/-- The request came through every guard of the control plane. -/
structure Legitimate (srv : Server) (r : Request) : Prop where
  routed : routed srv r = true
  post : r.method = "POST".toList
  sameSite : r.secFetchSite = [] ∨ r.secFetchSite = "same-origin".toList ∨
    r.secFetchSite = "none".toList
  header : r.diagControl = "1".toList
  authorized : srv.controls.password ≠ [] ∧ r.password = srv.controls.password ∨
    srv.controls.password = [] ∧ srv.loopback = true

theorem refuse_eq_none_iff {r : Request} :
    refuse r = none ↔ r.method = "POST".toList ∧
      (r.secFetchSite = [] ∨ r.secFetchSite = "same-origin".toList ∨
        r.secFetchSite = "none".toList) ∧ r.diagControl = "1".toList := by
  unfold refuse
  split_ifs <;> tauto

theorem gate_eq_compare {srv : Server} {ctl : Ctl} {now : Time} (h : gate srv ctl now = .compare) :
    srv.controls.password ≠ [] ∧ ctl.authBlockUntil ≤ now := by
  unfold gate at h
  split_ifs at h with _ hpw hactive
  refine ⟨hpw, ?_⟩
  have hle := (le_max_left (ctl.authBlockUntil - now) 0).trans (not_lt.mp hactive)
  linarith

theorem gate_eq_pass {srv : Server} {ctl : Ctl} {now : Time} (h : gate srv ctl now = .pass) :
    srv.controls.password = [] ∧ srv.loopback = true := by
  unfold gate at h
  split_ifs at h with _ hpw _ hloop
  exact ⟨not_not.mp hpw, hloop⟩

theorem controlRateOK_cases (ctl : Ctl) (now : Time) (action : Str) :
    controlRateOK ctl now action = (ctl, false) ∨
    (controlMinInterval action = 0 ∧ controlRateOK ctl now action = (ctl, true)) ∨
    (∀ last, ctl.ctlLast.lookup action = some last → last + controlMinInterval action ≤ now) ∧
      controlRateOK ctl now action =
        ({ ctl with ctlLast := ctl.ctlLast.insert action now }, true) := by
  unfold controlRateOK
  by_cases hiv : controlMinInterval action = 0
  · exact Or.inr (Or.inl ⟨hiv, if_pos hiv⟩)
  · by_cases hlast : ((ctl.ctlLast.lookup action).any fun last =>
        decide (now - last < controlMinInterval action)) = true
    · exact Or.inl (by simp only [hiv, if_false, hlast, if_true])
    · refine Or.inr (Or.inr ⟨fun last h => ?_, by simp only [hiv, if_false, hlast]; rfl⟩)
      have hle : controlMinInterval action ≤ now - last := by
        simpa [h] using hlast
      linarith

namespace Plane

variable {srv : Server} {s s' : Plane} {e : ControlEvent}

theorem receive_cases (srv : Server) (s : Plane) (r : Request) :
    s.receive srv r = s ∨ routed srv r = true ∧ refuse r = none ∧
      (gate srv s.ctl s.now = .compare ∧ s.receive srv r = { s with checked := r :: s.checked } ∨
        gate srv s.ctl s.now = .pass ∧
          s.receive srv r = { s with authorized := r :: s.authorized }) := by
  unfold receive
  split
  · rename_i hr
    split
    · exact Or.inl rfl
    · rename_i hg
      exact Or.inr ⟨hr.1, hr.2, Or.inl ⟨hg, rfl⟩⟩
    · rename_i hg
      exact Or.inr ⟨hr.1, hr.2, Or.inr ⟨hg, rfl⟩⟩
  · exact Or.inl rfl

theorem compare_cases (srv : Server) (s : Plane) (i : ℕ) (r : Request) :
    (r.password ≠ srv.controls.password ∧
      s.compare srv i r =
        { s with
          ctl := authFailed s.ctl s.now
          checked := s.checked.eraseIdx i
          wrong := s.wrong + 1 }) ∨
    r.password = srv.controls.password ∧
      s.compare srv i r =
        { s with
          ctl := authSucceeded s.ctl
          checked := s.checked.eraseIdx i
          authorized := r :: s.authorized
          right := s.right + 1 } := by
  unfold compare comparePassword
  by_cases h : r.password ≠ srv.controls.password
  · exact Or.inl ⟨h, by rw [if_pos h]⟩
  · exact Or.inr ⟨not_not.mp h, by rw [if_neg h]⟩

theorem limit_cases (s : Plane) (action : Str) (request : Option Request) (calls : List Call) :
    s.limit action request calls = s ∨
    (controlMinInterval action = 0 ∧
      s.limit action request calls =
        { s with log := ⟨action, s.now, request, calls⟩ :: s.log }) ∨
    (∀ last, s.ctl.ctlLast.lookup action = some last →
      last + controlMinInterval action ≤ s.now) ∧
      s.limit action request calls =
        { s with
          ctl := { s.ctl with ctlLast := s.ctl.ctlLast.insert action s.now }
          log := ⟨action, s.now, request, calls⟩ :: s.log } := by
  unfold limit
  rcases controlRateOK_cases s.ctl s.now action with h | ⟨hiv, h⟩ | ⟨hlast, h⟩
  · exact Or.inl (by rw [h])
  · exact Or.inr (Or.inl ⟨hiv, by rw [h]⟩)
  · exact Or.inr (Or.inr ⟨hlast, by rw [h]⟩)

/-- The call was made for a legitimate request of the history, by its action. -/
def CalledFor (srv : Server) (es : List ControlEvent) (e : Entry) (c : Call) : Prop :=
  ∃ r, e.request = some r ∧ .request r ∈ es ∧ Legitimate srv r ∧ e.action = r.action ∧
    c ∈ (dispatch srv.controls r).2

/-- The requests at work have passed the guards before them, and so has what was done. -/
structure Guarded (srv : Server) (es : List ControlEvent) (s : Plane) : Prop where
  checked : ∀ r ∈ s.checked, .request r ∈ es ∧ routed srv r = true ∧ refuse r = none ∧
    srv.controls.password ≠ []
  authorized : ∀ r ∈ s.authorized, .request r ∈ es ∧ Legitimate srv r
  log : ∀ e ∈ s.log, ∀ c ∈ e.calls, CalledFor srv es e c

theorem Guarded.mono {es es' : List ControlEvent} (h : Guarded srv es s) (hes : es ⊆ es') :
    Guarded srv es' s where
  checked r hr := (h.checked r hr).imp_left (hes ·)
  authorized r hr := (h.authorized r hr).imp_left (hes ·)
  log e he c hc := by
    obtain ⟨r, hr, hmem, hrest⟩ := h.log e he c hc
    exact ⟨r, hr, hes hmem, hrest⟩

theorem Guarded.limit {es : List ControlEvent} (h : Guarded srv es s) {action : Str}
    {request : Option Request} {calls : List Call}
    (hcalls : ∀ c ∈ calls, CalledFor srv es ⟨action, s.now, request, calls⟩ c) :
    Guarded srv es (s.limit action request calls) := by
  rcases s.limit_cases action request calls with heq | ⟨-, heq⟩ | ⟨-, heq⟩ <;> rw [heq]
  · exact h
  · exact ⟨h.checked, h.authorized, List.forall_mem_cons.mpr ⟨hcalls, h.log⟩⟩
  · exact ⟨h.checked, h.authorized, List.forall_mem_cons.mpr ⟨hcalls, h.log⟩⟩

theorem legitimate_of_refuse {r : Request} (hrouted : routed srv r = true)
    (hrefuse : refuse r = none)
    (hauth : srv.controls.password ≠ [] ∧ r.password = srv.controls.password ∨
      srv.controls.password = [] ∧ srv.loopback = true) : Legitimate srv r := by
  obtain ⟨hpost, hsite, hheader⟩ := refuse_eq_none_iff.mp hrefuse
  exact ⟨hrouted, hpost, hsite, hheader, hauth⟩

theorem Guarded.step {es : List ControlEvent} (h : Guarded srv es s)
    (hs : step srv s e = some s') : Guarded srv (es ++ [e]) s' := by
  replace h := h.mono (List.subset_append_left es [e])
  cases e with
  | elapse d =>
    obtain ⟨-, rfl⟩ : 0 ≤ d ∧ _ = s' := by simpa [Plane.step] using hs
    exact ⟨h.checked, h.authorized, h.log⟩
  | request r =>
    cases hs
    have hmem : .request r ∈ es ++ [.request r] := by simp
    rcases s.receive_cases srv r with heq | ⟨hrouted, hrefuse, ⟨hg, heq⟩ | ⟨hg, heq⟩⟩ <;> rw [heq]
    · exact h
    · exact ⟨List.forall_mem_cons.mpr ⟨⟨hmem, hrouted, hrefuse, (gate_eq_compare hg).1⟩,
        h.checked⟩, h.authorized, h.log⟩
    · have hlegit := legitimate_of_refuse hrouted hrefuse (Or.inr (gate_eq_pass hg))
      exact ⟨h.checked, List.forall_mem_cons.mpr ⟨⟨hmem, hlegit⟩, h.authorized⟩, h.log⟩
  | compare i =>
    obtain ⟨r, hr, rfl⟩ := Option.map_eq_some_iff.mp hs
    obtain ⟨hmem, hrouted, hrefuse, hpw⟩ := h.checked r (List.mem_of_getElem? hr)
    have hchecked := fun r (hr : r ∈ s.checked.eraseIdx i) =>
      h.checked r (List.mem_of_mem_eraseIdx hr)
    rcases s.compare_cases srv i r with ⟨-, heq⟩ | ⟨hsame, heq⟩ <;> rw [heq]
    · exact ⟨hchecked, h.authorized, h.log⟩
    · have hlegit := legitimate_of_refuse hrouted hrefuse (Or.inl ⟨hpw, hsame⟩)
      exact ⟨hchecked, List.forall_mem_cons.mpr ⟨⟨hmem, hlegit⟩, h.authorized⟩, h.log⟩
  | act i =>
    obtain ⟨r, hr, rfl⟩ := Option.map_eq_some_iff.mp hs
    obtain ⟨hmem, hlegit⟩ := h.authorized r (List.mem_of_getElem? hr)
    have hrest : Guarded srv (es ++ [.act i])
        { s with authorized := s.authorized.eraseIdx i } :=
      ⟨h.checked, fun r hr => h.authorized r (List.mem_of_mem_eraseIdx hr), h.log⟩
    exact hrest.limit fun c hc => ⟨r, rfl, hmem, hlegit, rfl, hc⟩
  | probe action =>
    cases hs
    exact h.limit (by simp)

structure Limited (s : Plane) : Prop where
  time_le : ∀ e ∈ s.log, e.time ≤ s.now
  last : ∀ e ∈ s.log, controlMinInterval e.action ≠ 0 →
    ∃ last, s.ctl.ctlLast.lookup e.action = some last ∧ e.time ≤ last
  spaced : s.log.Pairwise fun later earlier => later.action = earlier.action →
    earlier.time + controlMinInterval later.action ≤ later.time

theorem Limited.of_eq (h : Limited s) (hlog : s'.log = s.log)
    (hlast : s'.ctl.ctlLast = s.ctl.ctlLast) (hnow : s.now ≤ s'.now) : Limited s' where
  time_le e he := (h.time_le e (hlog ▸ he)).trans hnow
  last e he hiv := by
    rw [hlast]
    exact h.last e (hlog ▸ he) hiv
  spaced := by
    rw [hlog]
    exact h.spaced

theorem Limited.limit (h : Limited s) (action : Str) (request : Option Request)
    (calls : List Call) : Limited (s.limit action request calls) := by
  rcases s.limit_cases action request calls with heq | ⟨hiv, heq⟩ | ⟨hlast, heq⟩ <;> rw [heq]
  · exact h
  · refine ⟨List.forall_mem_cons.mpr ⟨le_rfl, h.time_le⟩,
      List.forall_mem_cons.mpr ⟨fun hne => absurd hiv hne, h.last⟩,
      List.pairwise_cons.mpr ⟨fun e he _ => ?_, h.spaced⟩⟩
    simp only [hiv, add_zero]
    exact h.time_le e he
  · refine ⟨List.forall_mem_cons.mpr ⟨le_rfl, h.time_le⟩, ?_,
      List.pairwise_cons.mpr ⟨fun e he haction => ?_, h.spaced⟩⟩
    · refine List.forall_mem_cons.mpr ⟨fun _ => ⟨s.now, by simp, le_rfl⟩, fun e he hiv => ?_⟩
      obtain ⟨last, hl, hle⟩ := h.last e he hiv
      simp only [Map.lookup_insert_eq_ite]
      split
      · exact ⟨s.now, rfl, h.time_le e he⟩
      · exact ⟨last, hl, hle⟩
    · -- the earlier run is not later than the last one, and that is an interval ago
      obtain rfl : action = e.action := haction
      by_cases hiv : controlMinInterval e.action = 0
      · simp only [hiv, add_zero]
        exact h.time_le e he
      · obtain ⟨last, hl, hle⟩ := h.last e he hiv
        simp only
        linarith [hlast last hl]

theorem Limited.step (h : Limited s) (hs : step srv s e = some s') : Limited s' := by
  cases e with
  | elapse d =>
    obtain ⟨hd, rfl⟩ : 0 ≤ d ∧ _ = s' := by simpa [Plane.step] using hs
    exact h.of_eq rfl rfl (by simpa using hd)
  | request r =>
    cases hs
    rcases s.receive_cases srv r with heq | ⟨-, -, ⟨-, heq⟩ | ⟨-, heq⟩⟩ <;> rw [heq]
    · exact h
    · exact h.of_eq rfl rfl le_rfl
    · exact h.of_eq rfl rfl le_rfl
  | compare i =>
    obtain ⟨r, -, rfl⟩ := Option.map_eq_some_iff.mp hs
    rcases s.compare_cases srv i r with ⟨-, heq⟩ | ⟨-, heq⟩ <;> rw [heq]
    · exact h.of_eq rfl rfl le_rfl
    · exact h.of_eq rfl rfl le_rfl
  | act i =>
    obtain ⟨r, -, rfl⟩ := Option.map_eq_some_iff.mp hs
    have hrest : Limited { s with authorized := s.authorized.eraseIdx i } := h.of_eq rfl rfl le_rfl
    exact hrest.limit _ _ _
  | probe action =>
    cases hs
    exact h.limit action none []

def calls (s : Plane) : List Call := s.log.flatMap (·.calls)

/-! ## What holds of every interleaving -/

variable {now : Time} {es : List ControlEvent}

/-- However requests interleave, a callback is called only for a request of the run that an allowed
source posted to the route, from no other site, with the header of the page, and with the
password, or on a loopback bind that has none; and it is the callback of the action in the path. -/
theorem calls_legitimate (h : Runs.run (step srv) { now } es = some s) :
    ∀ e ∈ s.log, ∀ c ∈ e.calls, ∃ r, e.request = some r ∧ .request r ∈ es ∧ Legitimate srv r ∧
      e.action = r.action ∧ c ∈ (dispatch srv.controls r).2 := by
  have hinit : Guarded srv [] { now } := ⟨by simp, by simp, by simp⟩
  exact (Runs.inv_of_run hinit (fun _ _ _ _ hi _ hs => hi.step hs)
    (fun _ _ _ _ _ _ => trivial) h).log

/-- A server with the controls on, bound as `loopback` says. -/
def controlled (password : Str) (loopback : Bool) : Server where
  controls := { allowControl := true, password }
  loopback := loopback

def posted (path : String) (password : Str) : ControlEvent :=
  .request {
    method := "POST".toList, path := path.toList, diagControl := ['1'], diagPassword := password }

theorem restart_legitimate :
    ∃ s, Runs.run (step (controlled ['k'] false)) { now := 0 }
        [posted "/control/restart" ['k'], .compare 0, .act 0] = some s ∧
      s.calls = [.restart] ∧
      ∀ e ∈ s.log, ∀ c ∈ e.calls, ∃ r, e.request = some r ∧
        Legitimate (controlled ['k'] false) r := by
  obtain ⟨s, hs, hcalls⟩ := Option.map_eq_some_iff.mp (show
    (Runs.run (step (controlled ['k'] false)) { now := 0 }
      [posted "/control/restart" ['k'], .compare 0, .act 0]).map calls = some [.restart] by
      decide +kernel)
  refine ⟨s, hs, hcalls, fun e he c hc => ?_⟩
  obtain ⟨r, hr, -, hlegit, -⟩ := calls_legitimate hs e he c hc
  exact ⟨r, hr, hlegit⟩

/-- However requests interleave, an action with a minimum interval passes the limit at most once in
it, the pages that share the limit included. -/
theorem actions_spaced (h : Runs.run (step srv) { now } es = some s) :
    s.log.Pairwise fun later earlier => later.action = earlier.action →
      earlier.time + controlMinInterval later.action ≤ later.time := by
  have hinit : Limited { now } := ⟨by simp, by simp, by simp⟩
  exact (Runs.inv_of_steps hinit (fun _ _ _ hi hs => hi.step hs) h).spaced

theorem restarts_spaced :
    ∃ s, Runs.run (step (controlled [] true)) { now := 0 }
        [posted "/control/restart" [], posted "/control/restart" [], .act 0,
          .elapse (10 * second), .act 0] = some s ∧
      s.calls = [.restart, .restart] ∧
      s.log.Pairwise fun later earlier => later.action = earlier.action →
        earlier.time + controlMinInterval later.action ≤ later.time := by
  obtain ⟨s, hs, hcalls⟩ := Option.map_eq_some_iff.mp (show
    (Runs.run (step (controlled [] true)) { now := 0 }
      [posted "/control/restart" [], posted "/control/restart" [], .act 0,
        .elapse (10 * second), .act 0]).map calls = some [.restart, .restart] by decide +kernel)
  exact ⟨s, hs, hcalls, actions_spaced hs⟩

end Plane

end SplitDNS.Diag
