import SplitDNS.Resolver.Helpers

/-! # The local plane

Names under the local suffixes are served from the view of announced hosts.
A queried name is reduced to a bare host by stripping local suffixes and zone
apexes; a restricted host is then served from the trusted tier only.
-/

namespace SplitDNS.Resolver

open Go Go.Netip Go.Strings Dns Model

/-- The label before a local suffix, if the name has one. -/
def localLabel (snap : Snapshot) (name : Str) : Option Str :=
  let lbl := trimSuffix name ".local.".toList
  if lbl ≠ name then some lbl
  else if snap.localDomain ≠ [] then
    let lbl := trimSuffix name ('.' :: snap.localDomain ++ ['.'])
    if lbl ≠ name then some lbl else none
  else none

/-- The name without one label-aligned member at its end, if a label remains before it. -/
def stripMember (fqdn member : Str) : Option Str :=
  let m := member ++ ['.']
  if hasSuffix fqdn ('.' :: m) then some (fqdn.take (fqdn.length - m.length)) else none

/-- One pass of the stripping loop: the rest of the name and whether a local suffix went. -/
def stripOne (snap : Snapshot) (cur : Str) : Option (Str × Bool) :=
  match stripMember cur "local".toList with
  | some h => some (h, true)
  | none =>
    match if snap.localDomain ≠ [] then stripMember cur snap.localDomain else none with
    | some h => some (h, true)
    | none =>
      let apex := longestZoneSuffix cur snap.zones
      if apex ≠ [] then (stripMember cur (trimSuffix apex ['.'])).map (·, false) else none

/-- The stripping loop: the rest, whether a local suffix went, and whether anything went. -/
def stripAll (snap : Snapshot) : ℕ → Str × Bool × Bool → Str × Bool × Bool
  | 0, s => s
  | passes + 1, s =>
    match stripOne snap s.1 with
    | some (h, isLocal) => stripAll snap passes (h, s.2.1 || isLocal, true)
    | none => s

def isHostLabel (snap : Snapshot) (label : Str) : Bool :=
  label ≠ [] && '.' ∉ label && !hasPrefix label ['_'] && label ≠ "local".toList &&
    !(snap.localDomain ≠ [] && label = snap.localDomain)

structure Recovered where
  host : Option Str
  tainted : Bool
  deriving DecidableEq, Repr

/-- The bare host that a name means, and whether a local suffix was among what was stripped. -/
def recoverLocalHost (snap : Snapshot) (name : Str) : Recovered :=
  let (cur, tainted, stripped) := stripAll snap 8 (name, false, false)
  if !stripped then ⟨none, false⟩
  else
    let label := trimSuffix cur ['.']
    ⟨if isHostLabel snap label then some label else none, tainted⟩

/-- A managed host: a virtual host, `www`, or one whose name is dynamic in some zone. -/
def restrictedLabel (snap : Snapshot) (host : Str) : Bool :=
  host = "www".toList || host ∈ snap.vhosts ||
    snap.zones.keys.any fun apex => host ++ '.' :: apex ∈ snap.ddnsEligible

def isServable (ip : Addr) : Bool :=
  !ip.isLoopback && !ip.isLinkLocalUnicast && !ip.isMulticast && !ip.isUnspecified

def isLocalScope (ip : Addr) : Bool :=
  isServable ip && (ip.isPrivate || (ip.is6 && ip.isGlobalUnicast))

def forwardOf (view : MDNSView) (host : Str) : List Model.RR := (view.forward.lookup host).getD []

/-- A record that may be served: a readable address of the type and scope. -/
def servable (qtype : RRType) (localScopeOnly : Bool) (r : Model.RR) : Bool :=
  r.type = qtype && (parseAddr r.content).any fun ip =>
    isServable ip && (!localScopeOnly || isLocalScope ip)

/-- The host's addresses of one family under the trust policy. -/
def localServeAddrs (view : MDNSView) (host : Str) (qtype : RRType)
    (restricted localScopeOnly : Bool) : List Model.RR :=
  let recs := (forwardOf view host).filter (servable qtype localScopeOnly)
  let trusted := recs.filter (·.trusted)
  if trusted ≠ [] then trusted
  else if restricted then [] else recs.filter (!·.trusted)

def localHostAddrs (snap : Snapshot) (view : MDNSView) (host : Str) (localScopeOnly : Bool) :
    List Model.RR × List Model.RR × Bool :=
  let restricted := restrictedLabel snap host
  (localServeAddrs view host typeA restricted localScopeOnly,
    localServeAddrs view host typeAAAA restricted localScopeOnly, restricted)

/-- The addresses to serve under a zone name: of each family the local ones, else all. -/
def localScopeAddrs (mrecs : List Model.RR) : List Model.RR :=
  let preferLocal (qtype : RRType) :=
    let loc := mrecs.filter (servable qtype true)
    if loc ≠ [] then loc else mrecs.filter (servable qtype false)
  preferLocal typeA ++ preferLocal typeAAAA

variable (newRR : NewRR)

def fillLocalAddrs (resp : Msg) (name : Str) (qtype : RRType) (v4 v6 : List Model.RR) : Msg :=
  if qtype = typeA then appendMatching newRR resp v4 name typeA
  else if qtype = typeAAAA then appendMatching newRR resp v6 name typeAAAA
  else if qtype = typeANY then
    appendMatching newRR (appendMatching newRR resp v4 name typeA) v6 name typeAAAA
  else resp

/-- The reply to a search-list spelling of a host under a zone. -/
def localRecoveredZoneReply (snap : Snapshot) (view : MDNSView) (req : Msg) (name host : Str)
    (qtype : RRType) (zone : Zone) : Msg :=
  let resp := { reply req with authoritative := true }
  let (v4, v6, _) := localHostAddrs snap view host true
  if v4 = [] && v6 = [] then setNegativeSOA newRR resp zone.soa zone.apex .nameError
  else
    let resp := fillLocalAddrs newRR resp name qtype v4 v6
    if resp.answer = [] then setNegativeSOA newRR resp zone.soa zone.apex .success else resp

end SplitDNS.Resolver
