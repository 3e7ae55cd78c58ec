import SplitDNS.Go.NetipText
import SplitDNS.Model.Snapshot

/-! # Replies and names

The building blocks of the resolver: reply skeletons, label-aligned suffixes,
owners relative to an apex, rendering of record sets into a section, and the
negative answer with the zone's start-of-authority record.
-/

namespace SplitDNS.Resolver

open Go Go.Netip Go.Strings Dns Model

def reply (req : Msg) : Msg := { setReply req with recursionAvailable := true }

def errReply (req : Msg) (rcode : Rcode) : Msg := setRcode req rcode

def isArpa (name : Str) : Bool :=
  hasSuffix name ".in-addr.arpa.".toList || hasSuffix name ".ip6.arpa.".toList

/-- The apex is the name or a label-aligned suffix of it. -/
def isSuffixLabel (name apex : Str) : Bool := name = apex || hasSuffix name ('.' :: apex)

/-- The longest of the apexes that is a label suffix of the name, empty if there is none. -/
def longestSuffix (name : Str) (apexes : List Str) : Str :=
  apexes.foldl (fun best apex =>
    if isSuffixLabel name apex && best.length < apex.length then apex else best) []

def longestZoneSuffix (name : Str) (zones : Map Str (Option Zone)) : Str :=
  longestSuffix name zones.keys

def longestReverseZone (name : Str) (rz : Map Str RevZone) : Option RevZone :=
  let best := longestSuffix name rz.keys
  if best = [] then none else rz.lookup best

def relativeOwner (name apex : Str) : Str :=
  if name = apex then [] else trimSuffix (trimSuffix name apex) ['.']

def labelCount (owner : Str) : ℕ := if owner = [] then 0 else owner.count '.' + 1

section Rendering

variable (newRR : NewRR)

/-- The record rendered at the name, nil if it does not render. -/
def toRR (r : Model.RR) (name : Str) : Dns.RR :=
  (Model.RR.toMiekg newRR { r with name := fqdn name }).toOption

/-- The records of the type, or all for ANY, rendered at the name. -/
def render (recs : List Model.RR) (name : Str) (qtype : RRType) : List Dns.RR :=
  (recs.filter fun r => qtype = typeANY || r.type = qtype).filterMap fun r =>
    (toRR newRR r name).map some

def appendMatching (resp : Msg) (recs : List Model.RR) (name : Str) (qtype : RRType) : Msg :=
  { resp with answer := resp.answer ++ render newRR recs name qtype }

/-- The record sets of a map appended one after the other, except for the skipped types. -/
def appendSets (resp : Msg) (sets : RRsets) (name : Str) (skip : RRType → Bool) : Msg :=
  sets.entries.foldl (fun resp p =>
    if skip p.1 then resp else appendMatching newRR resp p.2 name p.1) resp

def addrRR (name : Str) (qtype : RRType) (content : Str) (ttl : UInt32) : Dns.RR :=
  (Model.RR.toMiekg newRR
    { name := fqdn name, type := qtype, cls := classINET, ttl, content }).toOption

/-- The last of the seven fields of the record's content, zero if it cannot be read. -/
def soaMinimum (soa : Model.RR) : UInt32 :=
  let fs := fields soa.content
  if fs.length < 7 then 0
  else UInt32.ofNat ((fs.getLast?.bind (parseUint · 32)).getD 0)

def setNegativeSOA (resp : Msg) (soa : Model.RR) (apex : Str) (rcode : Rcode) : Msg :=
  if soa.content = [] && soa.target = [] then { resp with rcode }
  else
    let m := soaMinimum soa
    let negTTL := if 0 < m && m < soa.ttl then m else soa.ttl
    match Model.RR.toMiekg newRR { soa with name := fqdn apex, ttl := negTTL } with
    | .ok rr => { resp with rcode, ns := resp.ns ++ [some rr] }
    | .error _ => { resp with rcode }

end Rendering

end SplitDNS.Resolver
