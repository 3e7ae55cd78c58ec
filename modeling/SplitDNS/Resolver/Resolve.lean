import SplitDNS.Resolver.DNSSD
import SplitDNS.Resolver.Zone

/-! # Resolution

The pipeline that classifies a query over one snapshot and one view, in a fixed
order of precedence, and either answers it or says where it is forwarded.
-/

namespace SplitDNS.Resolver

open Go Go.Netip Go.Strings Dns Model

structure Outcome where
  msg : Option Msg := none
  forward : Bool := false
  stub : List Str := []
  localMiss : Bool := false
  localLabel : Str := []
  deriving DecidableEq, Repr

def ddrTTL : UInt32 := 300

def vhostTTL : UInt32 := 60

def minimalANYTTL : UInt32 := 3600

def toIPs (addrs : List Addr) : List Addr := addrs.filter Addr.isValid

def ddrSVCB (d : DDRAdvert) (priority : UInt16) (alpn : List Str) (port : UInt16) (dohpath : Str) :
    Dns.RR :=
  some ⟨⟨"_dns.resolver.arpa.".toList, typeSVCB, classINET, ddrTTL⟩,
    .svcb priority d.adn ([.alpn alpn, .port port] ++
      (if dohpath ≠ [] then [.dohPath dohpath] else []) ++
      (if toIPs d.v4Hints ≠ [] then [.ipv4Hint (toIPs d.v4Hints)] else []) ++
      (if toIPs d.v6Hints ≠ [] then [.ipv6Hint (toIPs d.v6Hints)] else []))⟩

def resolverArpa (snap : Snapshot) (req : Msg) (name : Str) (qtype : RRType) : Msg :=
  let resp := { reply req with authoritative := true }
  match snap.ddr with
  | none => resp
  | some d =>
    if name ≠ "_dns.resolver.arpa.".toList || (qtype ≠ typeSVCB && qtype ≠ typeANY) then resp
    else
      let dot := d.dot.toList.map fun e => ddrSVCB d 1 ["dot".toList] e.port []
      let doh := d.doh.toList.map fun e => ddrSVCB d (if d.dot.isSome then 2 else 1) ["h2".toList]
        e.port (e.path ++ "\x7b?dns\x7d".toList)
      { resp with answer := dot ++ doh }

def ddrADNReply (d : DDRAdvert) (req : Msg) (name : Str) (qtype : RRType) : Msg :=
  let v4 := if qtype = typeA || qtype = typeANY then (d.v4Hints.filter Addr.is4).map fun a =>
    some ⟨⟨name, typeA, classINET, ddrTTL⟩, .a a⟩ else []
  let v6 := if qtype = typeAAAA || qtype = typeANY then (d.v6Hints.filter Addr.is6).map fun a =>
    some ⟨⟨name, typeAAAA, classINET, ddrTTL⟩, .aaaa a⟩ else []
  { reply req with authoritative := true, answer := v4 ++ v6 }

def minimalANY (req : Msg) (name : Str) : Msg :=
  { reply req with
    answer := [some ⟨⟨name, typeHINFO, classINET, minimalANYTTL⟩, .hinfo "RFC8482".toList []⟩] }

def looksLikeID (s : Str) : Bool :=
  s.all (fun c => c.isDigit || ('a' ≤ c && c ≤ 'f') || ('A' ≤ c && c ≤ 'F') || c = '-') &&
    16 ≤ s.countP fun c => c ≠ '-'

def betterCanonical (candidate best : Str) : Bool :=
  if looksLikeID candidate ≠ looksLikeID best then looksLikeID best else candidate < best

/-- The preferred host among the reverse entries, with its lifetime. -/
def canonicalHost (ptrs : List Model.RR) : Str × UInt32 :=
  ptrs.foldl (fun best r =>
    let target := if r.target = [] then r.content else r.target
    let host := trimSuffix target ".local.".toList
    if host = target || host = [] then best
    else if best.1 = [] || betterCanonical host best.1 then (host, r.ttl) else best) ([], 0)

def canonicalReversePTR (ptrs : List Model.RR) (name localDomain : Str) : Option Record :=
  let (best, bestTTL) := canonicalHost ptrs
  if best = [] then none
  else
    let suffix := if localDomain ≠ [] then '.' :: localDomain ++ ['.'] else ".local.".toList
    some ⟨⟨name, typePTR, classINET, if bestTTL = 0 then 120 else bestTTL⟩, .ptr (best ++ suffix)⟩

/-- `AddrPort.String`. -/
def addrPortString (ap : AddrPort) : Str :=
  match ap.addr with
  | .invalid => "invalid AddrPort".toList
  | .v4 b => (Addr.v4 b).string ++ ':' :: formatUint ap.port.toNat
  | .v6 b z => '[' :: (Addr.v6 b z).string ++ "]:".toList ++ formatUint ap.port.toNat

def stubMatch (snap : Snapshot) (name : Str) : List Str :=
  let best := longestSuffix name snap.stubZones.keys
  if best = [] then []
  else ((snap.stubZones.lookup best).map fun sz => sz.target.map addrPortString).getD []

def isVHostCandidate (snap : Snapshot) (apex owner : Str) : Bool :=
  apex ∉ snap.excluded && (snap.vhostV4.isValid || snap.vhostV6.isValid) &&
    !(owner ≠ [] && 1 < labelCount owner) &&
    (owner = [] || owner = "www".toList || owner ∈ snap.vhosts)

/-- Types that a name with an overridden address does not inherit. -/
def overrideStripped (t : RRType) : Bool :=
  t ∈ [typeA, typeAAAA, typeCNAME, typeHTTPS, typeSVCB]

def vhostInherited (zone : Option Zone) (owner : Str) : Option RRsets :=
  zone.bind fun z => if owner = [] then z.records.lookup [] else some z.wildcards

variable (newRR : NewRR)

def vhostNoData (resp : Msg) : Option Zone → Msg
  | some zone => setNegativeSOA newRR resp zone.soa zone.apex .success
  | none => resp

def vhostReply (snap : Snapshot) (req : Msg) (name owner : Str) (qtype : RRType)
    (zone : Option Zone) : Msg :=
  let resp := { reply req with authoritative := true }
  let proxy4 := if snap.vhostV4.isValid
    then [addrRR newRR name typeA snap.vhostV4.string vhostTTL] else []
  let proxy6 := if snap.vhostV6.isValid
    then [addrRR newRR name typeAAAA snap.vhostV6.string vhostTTL] else []
  let inherited := vhostInherited zone owner
  if qtype = typeA then
    if snap.vhostV4.isValid then { resp with answer := proxy4 } else vhostNoData newRR resp zone
  else if qtype = typeAAAA then
    if snap.vhostV6.isValid then { resp with answer := proxy6 } else vhostNoData newRR resp zone
  else if qtype = typeCNAME || qtype = typeHTTPS || qtype = typeSVCB then
    vhostNoData newRR resp zone
  else if qtype = typeANY then
    let resp := appendSets newRR { resp with answer := proxy4 ++ proxy6 } (inherited.getD ∅) name
      overrideStripped
    if resp.answer ≠ [] then resp else vhostNoData newRR resp zone
  else if rrsetOf inherited qtype ≠ [] then
    appendMatching newRR resp (rrsetOf inherited qtype) name qtype
  else vhostNoData newRR resp zone

/-- The reply for a host known on the local network under a zone name. -/
def mdnsZoneReply (zone : Zone) (req : Msg) (name : Str) (qtype : RRType) (mrecs : List Model.RR) :
    Msg :=
  let resp := { reply req with authoritative := true }
  if qtype = typeANY then
    appendSets newRR (appendMatching newRR resp mrecs name typeANY) zone.wildcards name
      overrideStripped
  else
    let resp :=
      if qtype = typeA || qtype = typeAAAA then appendMatching newRR resp mrecs name qtype
      else if qtype = typeCNAME || qtype = typeHTTPS || qtype = typeSVCB then resp
      else appendMatching newRR resp (rrsetOf zone.wildcards qtype) name qtype
    if resp.answer = [] then setNegativeSOA newRR resp zone.soa zone.apex .success else resp

def nxdomainZoneSOA (req : Msg) (zone : Zone) : Msg :=
  setNegativeSOA newRR { reply req with authoritative := true } zone.soa zone.apex .nameError

def answerStatic (snap : Snapshot) (req : Msg) (name : Str) (qtype : RRType) : Option Outcome :=
  (snap.static.lookup name).map fun recs =>
    { msg := appendMatching newRR { reply req with authoritative := true } recs name qtype }

def answerReverse (snap : Snapshot) (view : MDNSView) (req : Msg) (name : Str) (qtype : RRType) :
    Outcome :=
  match longestReverseZone name snap.reverseZ with
  | none => { forward := true }
  | some rz =>
    let resp := { reply req with authoritative := true }
    let static := render newRR ((snap.static.lookup name).getD []) name typePTR
    let ptr := (canonicalReversePTR ((view.reverse.lookup name).getD []) name
      snap.localDomain).toList.map some
    let found := if qtype = typePTR || qtype = typeANY
      then (if static ≠ [] then static else ptr) else []
    if found ≠ [] then { msg := some { resp with answer := found } }
    else { msg := setNegativeSOA newRR resp rz.soa rz.apex .success }

/-- The reply for a host of the local plane, with the signal that it may be solicited. -/
def answerLocalHost (snap : Snapshot) (view : MDNSView) (resp : Msg) (name : Str) (qtype : RRType) :
    Outcome :=
  match (recoverLocalHost snap name).host with
  | none => { msg := some { resp with rcode := .nameError } }
  | some host =>
    let (v4, v6, restricted) := localHostAddrs snap view host false
    if v4 = [] && v6 = [] then
      let solicit := !restricted && (qtype = typeA || qtype = typeAAAA || qtype = typeANY)
      { msg := some { resp with rcode := .nameError }
        localMiss := solicit
        localLabel := if solicit then host else [] }
    else { msg := fillLocalAddrs newRR resp name qtype v4 v6 }

def answerLocal (snap : Snapshot) (view : MDNSView) (req : Msg) (name label : Str)
    (qtype : RRType) : Outcome :=
  let resp := { reply req with authoritative := true }
  match if snap.serveDNSSD then answerDNSSD view resp name label qtype else none with
  | some msg => { msg := msg }
  | none => answerLocalHost newRR snap view resp name qtype

/-- The answer of a mirrored zone below the redirect: overlay, recovery, then the records. -/
def answerZone (snap : Snapshot) (view : MDNSView) (req : Msg) (zone : Zone) (name owner : Str)
    (qtype : RRType) : Msg :=
  let unpublished := (zone.records.lookup owner).isNone && (zone.tunnelAddr.lookup owner).isNone
  let overlay := localScopeAddrs (forwardOf view owner)
  let recovered := recoverLocalHost snap name
  if unpublished && name ∉ snap.ddnsEligible && overlay ≠ [] then
    mdnsZoneReply newRR zone req name qtype overlay
  else if recovered.tainted && unpublished && owner ∉ zone.ent then
    match recovered.host with
    | some host => localRecoveredZoneReply newRR snap view req name host qtype zone
    | none => nxdomainZoneSOA newRR req zone
  else answerAuthoritative newRR req (some zone) name owner qtype

def answerZoneOrVHost (snap : Snapshot) (view : MDNSView) (req : Msg) (name apex : Str)
    (qtype : RRType) : Msg :=
  let zone := (snap.zones.lookup apex).join
  let owner := relativeOwner name apex
  if isVHostCandidate snap apex owner then vhostReply newRR snap req name owner qtype zone
  else
    match zone with
    | some zone => answerZone newRR snap view req zone name owner qtype
    | none => answerAuthoritative newRR req none name owner qtype

/-- The steps of the pipeline from the static names on. -/
def resolveName (snap : Snapshot) (view : MDNSView) (req : Msg) (name : Str) (qtype : RRType) :
    Outcome :=
  match answerStatic newRR snap req name qtype with
  | some out => out
  | none =>
    if isArpa name then answerReverse newRR snap view req name qtype
    else
      match localLabel snap name with
      | some lbl => answerLocal newRR snap view req name lbl qtype
      | none =>
        if stubMatch snap name ≠ [] then { stub := stubMatch snap name }
        else
          let apex := longestZoneSuffix name snap.zones
          if apex ≠ [] then { msg := answerZoneOrVHost newRR snap view req name apex qtype }
          else if qtype = typeANY then { msg := minimalANY req name }
          else { forward := true }

def queryName (q : Question) : Str := toLower (fqdn q.name)

def resolve (snap : Snapshot) (view : MDNSView) (req : Msg) : Outcome :=
  match req.question with
  | [q] =>
    let name := queryName q
    if name = "resolver.arpa.".toList || hasSuffix name ".resolver.arpa.".toList then
      { msg := resolverArpa snap req name q.qtype }
    else
      match snap.ddr.filter fun d => d.adn ≠ [] && name = d.adn with
      | some d => { msg := ddrADNReply d req name q.qtype }
      | none => resolveName newRR snap view req name q.qtype
  | _ => { msg := errReply req .formatError }

end SplitDNS.Resolver
