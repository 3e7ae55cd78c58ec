import Mathlib.Data.List.Sort
import SplitDNS.Resolver.Local

/-! # Service discovery

The services announced on the local network, projected to pointer, service and
text records under the local suffixes.
-/

namespace SplitDNS.Resolver

open Go Go.Strings Dns Model

def dnssdMeta : Str := "_services._dns-sd._udp".toList

def dnssdTTL : UInt32 := 120

/-- A service discovery node: the enumeration of types, one type, or one instance. -/
inductive DNSSDNode where
  | types
  | type (typ : Str)
  | instance (host typ : Str)
  deriving DecidableEq, Repr

def parseDNSSD (label : Str) : Option DNSSDNode :=
  if label = dnssdMeta then some .types
  else
    match (split label '.').reverse with
    | proto :: app :: host =>
      if proto ≠ "_tcp".toList && proto ≠ "_udp".toList then none
      else if !hasPrefix app ['_'] then none
      else if host = [] then some (.type (app ++ '.' :: proto))
      else some (.instance (join host.reverse '.') (app ++ '.' :: proto))
    | _ => none

def hostTTL (view : MDNSView) (host : Str) : UInt32 :=
  match (forwardOf view host).find? fun r => 0 < r.ttl with
  | some r => r.ttl
  | none => dnssdTTL

def sortStrings (l : List Str) : List Str := l.insertionSort (· ≤ ·)

def sdAppend (resp : Msg) (qtype rrtype : RRType) (data : RData) (name : Str) (ttl : UInt32) :
    Msg :=
  if qtype = typeANY || qtype = rrtype then
    { resp with answer := resp.answer ++ [some ⟨⟨name, rrtype, classINET, ttl⟩, data⟩] }
  else resp

/-- The targets of the pointer records of an enumeration. -/
def enumerate (view : MDNSView) (suffix : Str) : DNSSDNode → List Str
  | .types =>
    (sortStrings (view.services.entries.flatMap fun p => p.2.map MDNSService.type).dedup).map
      (· ++ suffix)
  | .type typ =>
    sortStrings ((view.services.entries.filter fun p => p.2.any (·.type = typ)).map fun p =>
      p.1 ++ '.' :: typ ++ suffix)
  | .instance _ _ => []

/-- The service and text records of one service of an instance. -/
def appendService (resp : Msg) (qtype : RRType) (name target : Str) (ttl : UInt32)
    (s : MDNSService) : Msg :=
  let resp := sdAppend resp qtype typeSRV (.srv 0 0 s.port target) name ttl
  if s.text ≠ [] then sdAppend resp qtype typeTXT (.txt s.text) name ttl else resp

/-- The projection of a node, unless the label is none. -/
def answerDNSSD (view : MDNSView) (resp : Msg) (name label : Str) (qtype : RRType) : Option Msg :=
  let suffix := name.drop label.length
  match parseDNSSD label with
  | none => none
  | some (.instance host typ) =>
    let services := ((view.services.lookup host).getD []).filter (·.type = typ)
    some (services.foldl (fun resp s =>
      appendService resp qtype name (host ++ suffix) (hostTTL view host) s) resp)
  | some node =>
    some ((enumerate view suffix node).foldl (fun resp t =>
      sdAppend resp qtype typePTR (.ptr t) name dnssdTTL) resp)

end SplitDNS.Resolver
