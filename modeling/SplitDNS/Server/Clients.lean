import SplitDNS.Server.Handler

/-! # Clients

The client of a query is taken from the remote address of its connection. A
query is refused only if its client is known and the policy does not allow it:
a connection whose address gives no client passes the policy unseen.
-/

namespace SplitDNS.Server

open Go Go.Netip Dns Model Resolver

/-- A `net.Addr`: an endpoint of either transport with the bytes of its address, or another one. -/
inductive NetAddr where
  | udp (ip : List UInt8)
  | tcp (ip : List UInt8)
  | other
  deriving DecidableEq, Repr

def clientIP : NetAddr → Addr
  | .udp ip => ((addrFromSlice ip).map Addr.unmap).getD .invalid
  | .tcp ip => ((addrFromSlice ip).map Addr.unmap).getD .invalid
  | .other => .invalid

def isTCP : NetAddr → Bool
  | .tcp _ => true
  | _ => false

/-- The remote address that the DoH writer reports, given what `net.ResolveTCPAddr` makes of the
text: the empty endpoint if it makes nothing of it. -/
def tcpAddr (resolveTCPAddr : Str → Option (List UInt8)) (remote : Str) : NetAddr :=
  .tcp ((resolveTCPAddr remote).getD [])

inductive Work where
  | resolve
  | solicit (label : Str)
  | stub (targets : List Str)
  | forwardCached
  deriving DecidableEq, Repr

/-- The upstreams or the answer cache that an action turns to. -/
def Action.work : Action → List Work
  | stub targets => [.stub targets]
  | forwardCached => [.forwardCached]
  | _ => []

namespace Handler

variable {newRR : NewRR} {h : Handler} {remote : NetAddr} {req : Msg}

/-- `Server.ServeDNS` for a writer with the remote address, with the work it does on the way. -/
def serve (newRR : NewRR) (h : Handler) (remote : NetAddr) (req : Msg) : List Work × Action :=
  let ip := clientIP remote
  if ip.isValid && !h.access.allowed ip then ([], .refuse (.other 1))
  else if !h.slot then ([], if isTCP remote then .refuse .serverFailure else .drop)
  else
    let snap := h.snapshot.getD {}
    let out := resolve newRR snap (h.view.getD {}) req
    match h.onDemand with
    | some reloaded =>
      if out.localMiss then
        let action := dispatch (resolve newRR snap (reloaded.getD {}) req)
        ([.resolve, .solicit out.localLabel, .resolve] ++ action.work, action)
      else (.resolve :: (dispatch out).work, dispatch out)
    | none => (.resolve :: (dispatch out).work, dispatch out)

theorem serve_action (newRR : NewRR) (h : Handler) (remote : NetAddr) (req : Msg) :
    (h.serve newRR remote req).2 = h.serveDNS newRR (clientIP remote) (isTCP remote) req := by
  unfold serve serveDNS
  rcases h.onDemand with _ | reloaded
  · dsimp only
    split_ifs <;> rfl
  · dsimp only
    split_ifs <;> rfl

theorem serve_of_denied (hv : (clientIP remote).isValid = true)
    (hd : h.access.allowed (clientIP remote) = false) : (h.serve newRR remote req).1 = [] := by
  simp [serve, hv, hd]

theorem serve_of_full (hs : h.slot = false) : (h.serve newRR remote req).1 = [] := by
  simp only [serve, hs, Bool.not_false, if_true]
  split_ifs <;> rfl

theorem resolve_mem_serve (hs : h.slot = true)
    (ha : (clientIP remote).isValid = false ∨ h.access.allowed (clientIP remote) = true) :
    .resolve ∈ (h.serve newRR remote req).1 := by
  have hpass : ((clientIP remote).isValid && !h.access.allowed (clientIP remote)) = false := by
    rcases ha with ha | ha <;> simp [ha]
  unfold serve
  simp only [hpass, hs, Bool.false_eq_true, Bool.not_true, if_false]
  rcases h.onDemand with _ | reloaded
  · exact List.mem_cons_self
  · dsimp only
    split_ifs
    · exact List.mem_cons_self
    · exact List.mem_cons_self

/-- Work is done only for a known client that the policy allows, exactly if the client of the
connection is known or the limiter lets no query through. -/
theorem works_only_if_allowed_iff (newRR : NewRR) (h : Handler) (remote : NetAddr) (req : Msg) :
    ((h.serve newRR remote req).1 ≠ [] →
        (clientIP remote).isValid = true ∧ h.access.allowed (clientIP remote) = true) ↔
      (clientIP remote).isValid = true ∨ h.slot = false := by
  constructor
  · intro hwork
    by_contra hno
    rw [not_or, Bool.not_eq_true, Bool.not_eq_false] at hno
    have hmem := @resolve_mem_serve newRR h remote req hno.2 (Or.inl hno.1)
    have hvalid := (hwork (List.ne_nil_of_mem hmem)).1
    rw [hno.1] at hvalid
    cases hvalid
  · rintro (hv | hs) hwork
    · refine ⟨hv, ?_⟩
      by_contra hd
      exact hwork (serve_of_denied hv (Bool.not_eq_true _ ▸ hd))
    · exact absurd (serve_of_full hs) hwork

/-- A query over DoH from an unreadable address is forwarded although no client is allowed. -/
theorem unknown_client_forwarded :
    (clientIP (tcpAddr (fun _ => none) "@".toList)).isValid = false ∧
      (⟨none, none⟩ : Netmatch.Access).allowed (clientIP (tcpAddr (fun _ => none) "@".toList)) =
        false ∧
      ({ access := ⟨none, none⟩ } : Handler).serve readLine (tcpAddr (fun _ => none) "@".toList)
        (ask "example.com.".toList typeA) =
          ([.resolve, .forwardCached], .forwardCached) := by
  decide

end Handler

end SplitDNS.Server
