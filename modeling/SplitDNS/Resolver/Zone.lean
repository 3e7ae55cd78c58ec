import SplitDNS.Resolver.Helpers

/-! # Authoritative answers

The answer of a mirrored zone to a query: the exact owner first, with tunnel
addresses and the chase of in-zone aliases, then empty non-terminals, then the
wildcard, and the negative answers.
-/

namespace SplitDNS.Resolver

open Go Go.Strings Dns Model

def maxCNAMEChain : ℕ := 8

def targetOf (r : Model.RR) : Str := if r.target ≠ [] then fqdn r.target else fqdn r.content

variable (newRR : NewRR)

/-- The chase of aliases from an owner, with the number of further steps allowed. -/
def chaseCNAME (zone : Zone) (qtype : RRType) : ℕ → Msg → Str → Str → Msg
  | 0, resp, _, _ => resp
  | steps + 1, resp, owner, name =>
    match rrsetOf (zone.records.lookup owner) typeCNAME with
    | [] => resp
    | cn :: cns =>
      let resp := appendMatching newRR resp (cn :: cns) name typeCNAME
      let target := targetOf cn
      if !isSuffixLabel target zone.apex then resp
      else
        let tOwner := relativeOwner target zone.apex
        let rrs := rrsetOf (zone.records.lookup tOwner) qtype
        let addrs := rrsetOf (zone.tunnelAddr.lookup tOwner) qtype
        if rrs ≠ [] then appendMatching newRR resp rrs target qtype
        else if (qtype = typeA || qtype = typeAAAA) && addrs ≠ [] then
          appendMatching newRR resp addrs target qtype
        else if rrsetOf (zone.records.lookup tOwner) typeCNAME ≠ [] then
          chaseCNAME zone qtype steps resp tOwner target
        else resp

/-- Wildcard synthesis, or the negative answer when there is no wildcard. -/
def wildcardOrNX (resp : Msg) (zone : Zone) (name : Str) (qtype : RRType) : Msg :=
  let wt := zone.tunnelAddr.lookup ['*']
  let wc := zone.wildcards
  let noTunnel := (wt.getD ∅).entries = []
  let noWildcard := wc.entries = [] && noTunnel
  if qtype = typeANY then
    if noWildcard then setNegativeSOA newRR resp zone.soa zone.apex .nameError
    else
      let resp := appendSets newRR resp wc name fun t => t = typeCNAME && !noTunnel
      appendSets newRR resp (wt.getD ∅) name fun _ => false
  else if (qtype = typeA || qtype = typeAAAA) && rrsetOf wt qtype ≠ [] then
    appendMatching newRR resp (rrsetOf wt qtype) name qtype
  else if rrsetOf wc qtype ≠ [] then
    appendMatching newRR resp (rrsetOf wc qtype) name qtype
  else if !noWildcard then setNegativeSOA newRR resp zone.soa zone.apex .success
  else setNegativeSOA newRR resp zone.soa zone.apex .nameError

/-- The answer for an owner without records of the type: no data where the owner exists. -/
def absentType (resp : Msg) (zone : Zone) (name owner : Str) (qtype : RRType) : Msg :=
  if (zone.records.lookup owner).isSome || (zone.tunnelAddr.lookup owner).isSome ||
      owner ∈ zone.ent then setNegativeSOA newRR resp zone.soa zone.apex .success
  else wildcardOrNX newRR resp zone name qtype

def answerInZone (resp : Msg) (zone : Zone) (name owner : Str) (qtype : RRType) : Msg :=
  let ownerRecs := zone.records.lookup owner
  let tunnel := zone.tunnelAddr.lookup owner
  let cn := rrsetOf ownerRecs typeCNAME
  if qtype = typeCNAME then
    if cn ≠ [] then appendMatching newRR resp cn name typeCNAME
    else absentType newRR resp zone name owner qtype
  else if qtype = typeA || qtype = typeAAAA then
    if rrsetOf ownerRecs qtype ≠ [] then
      appendMatching newRR resp (rrsetOf ownerRecs qtype) name qtype
    else if rrsetOf tunnel qtype ≠ [] then
      appendMatching newRR resp (rrsetOf tunnel qtype) name qtype
    else if cn ≠ [] then chaseCNAME newRR zone qtype (maxCNAMEChain + 1) resp owner name
    else absentType newRR resp zone name owner qtype
  else if qtype = typeANY && (ownerRecs.isSome || tunnel.isSome) then
    let resp := appendSets newRR resp (ownerRecs.getD ∅) name fun t =>
      t = typeCNAME && tunnel.isSome
    appendSets newRR resp (tunnel.getD ∅) name fun _ => false
  else if rrsetOf ownerRecs qtype ≠ [] then
    appendMatching newRR resp (rrsetOf ownerRecs qtype) name qtype
  else if owner ≠ [] && cn ≠ [] then
    chaseCNAME newRR zone qtype (maxCNAMEChain + 1) resp owner name
  else absentType newRR resp zone name owner qtype

variable {newRR} in
/-- What holds of every way a zone answers holds of its answer: the records of one type at the
owner, those of its tunnel, a chase, all of its records, or that the type is absent. -/
theorem answerInZone_cases {resp : Msg} {zone : Zone} {name owner : Str} {qtype : RRType}
    (P : Msg → Prop)
    (stored : ∀ t, P (appendMatching newRR resp (rrsetOf (zone.records.lookup owner) t) name t))
    (tunnel : P (appendMatching newRR resp (rrsetOf (zone.tunnelAddr.lookup owner) qtype) name
      qtype))
    (chase : P (chaseCNAME newRR zone qtype (maxCNAMEChain + 1) resp owner name))
    (sets : P (appendSets newRR
      (appendSets newRR resp ((zone.records.lookup owner).getD ∅) name fun t =>
        t = typeCNAME && (zone.tunnelAddr.lookup owner).isSome)
      ((zone.tunnelAddr.lookup owner).getD ∅) name fun _ => false))
    (absent : P (absentType newRR resp zone name owner qtype)) :
    P (answerInZone newRR resp zone name owner qtype) := by
  unfold answerInZone
  refine iteInduction (fun _ => ?_) fun _ => iteInduction (fun _ => ?_) fun _ => ?_
  · exact iteInduction (fun _ => stored _) fun _ => absent
  · exact iteInduction (fun _ => stored _) fun _ => iteInduction (fun _ => tunnel) fun _ =>
      iteInduction (fun _ => chase) fun _ => absent
  · exact iteInduction (fun _ => sets) fun _ => iteInduction (fun _ => stored _) fun _ =>
      iteInduction (fun _ => chase) fun _ => absent

def answerAuthoritative (req : Msg) (zone : Option Zone) (name owner : Str) (qtype : RRType) :
    Msg :=
  let resp := { reply req with authoritative := true }
  match zone with
  | none => { resp with rcode := .serverFailure }
  | some zone => answerInZone newRR resp zone name owner qtype

end SplitDNS.Resolver
