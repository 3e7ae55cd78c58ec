import SplitDNS.Netmatch
import SplitDNS.Resolver.Routing

/-! # The handler

A query passes the access policy and the limiter and is resolved against the
current snapshot and view. After a local miss the host may be solicited, and the
query is resolved again against the view of that moment. The outcome is replied,
or sent to stub targets or to the upstreams, and which of it never depends on
the view.
-/

namespace SplitDNS.Server

open Go Go.Netip Dns Model Resolver

inductive Action where
  | drop
  | refuse (rcode : Rcode)
  | reply (msg : Msg)
  | stub (targets : List Str)
  | forwardCached
  deriving DecidableEq, Repr

/-- What the handler reads while it serves a query: the policy, whether the limiter has a slot, the
snapshot and the view, and, if hosts are solicited, the view after the wait. -/
structure Handler where
  access : Netmatch.Access
  slot : Bool := true
  snapshot : Option Snapshot := none
  view : Option MDNSView := none
  onDemand : Option (Option MDNSView) := none

def dispatch (out : Outcome) : Action :=
  match out.msg with
  | some msg => .reply msg
  | none =>
    if out.stub ≠ [] then .stub out.stub
    else if out.forward then .forwardCached
    else .refuse .serverFailure

namespace Handler

/-- `Server.ServeDNS`, up to the sending of the query or the reply. -/
def serveDNS (newRR : NewRR) (h : Handler) (ip : Addr) (tcp : Bool) (req : Msg) : Action :=
  if ip.isValid && !h.access.allowed ip then .refuse (.other 1)
  else if !h.slot then
    if tcp then .refuse .serverFailure else .drop
  else
    let snap := h.snapshot.getD {}
    let out := resolve newRR snap (h.view.getD {}) req
    match h.onDemand with
    | some reloaded =>
      dispatch (if out.localMiss then resolve newRR snap (reloaded.getD {}) req else out)
    | none => dispatch out

end Handler

/-- Where the query is sent: the stub targets, or the upstreams of the forward path. -/
def Action.upstream : Action → Option (List Str)
  | stub targets => some targets
  | forwardCached => some []
  | _ => none

theorem upstream_dispatch {out out' : Outcome} (h : out.way = out'.way) :
    (dispatch out).upstream = (dispatch out').upstream := by
  obtain ⟨hmsg, hforward, hstub⟩ : out.msg.isSome = out'.msg.isSome ∧ out.forward = out'.forward ∧
      out.stub = out'.stub := by
    simpa [Outcome.way] using h
  unfold dispatch
  rcases hm : out.msg with _ | msg <;> rcases hm' : out'.msg with _ | msg'
  · rw [hforward, hstub]
  · simp [hm, hm'] at hmsg
  · simp [hm, hm'] at hmsg
  · rfl

/-- There is exactly one way to go with a query, the same under every view, so that resolving again
after the wait for a host never sends upstream what would have been replied. -/
theorem resolve_one_way (newRR : NewRR) (snap : Snapshot) (req : Msg) (view view' : MDNSView) :
    (resolve newRR snap view req).OneWay ∧
      (resolve newRR snap view' req).way = (resolve newRR snap view req).way ∧
      ∀ (h : Handler) ip tcp, (h.serveDNS newRR ip tcp req).upstream =
        ({ h with onDemand := none }.serveDNS newRR ip tcp req).upstream := by
  refine ⟨oneWay_resolve, way_resolve_congr view view', fun h ip tcp => ?_⟩
  unfold Handler.serveDNS
  split_ifs
  · rfl
  · rfl
  · rfl
  · rcases h.onDemand with _ | reloaded
    · rfl
    · refine upstream_dispatch ?_
      split_ifs
      · exact way_resolve_congr _ _
      · rfl

end SplitDNS.Server
