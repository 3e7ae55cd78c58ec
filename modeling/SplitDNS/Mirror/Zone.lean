import SplitDNS.Go.NetipText
import SplitDNS.Model.Snapshot

/-! # Zones from records

The authoritative zone built from the records the provider lists. Aliases of a
tunnel are not stored: their owners get the addresses the provider presents for
them. Owners with descendants and no records of their own are marked as empty
non-terminals.
-/

namespace SplitDNS

open Go Go.Netip Go.Strings Dns Model

/-- `cfapi.Record`. The priority of a record without a number is `none`. -/
structure CFAPI.Record where
  id : Str := []
  type : Str
  name : Str
  content : Str
  proxied : Bool := false
  ttl : ℤ := 1
  priority : Option ℚ := some 0

namespace Mirror

/-- The tunnel resolver: the addresses of either family presented for a name. -/
abbrev TunnelResolver := Str → Except Str (List Addr × List Addr)

def wildcardProbe : Str := "__splitdns_wildcard_probe__".toList

section Records

def quoteTXT (s : Str) : Str :=
  if hasPrefix s ['"'] then s
  else '"' :: replaceAll (replaceAll s '\\' ['\\', '\\']) '"' ['\\', '"'] ++ ['"']

def ttlOr (ttl : ℤ) : UInt32 := if ttl ≤ 1 then 300 else UInt32.ofNat ttl.toNat

def addrRR (a : Addr) : Model.RR where
  type := if a.is6 then typeAAAA else typeA
  cls := classINET
  ttl := 300
  content := a.string
  synthetic := true

def isTunnelTarget (content : Str) (tunnelSuffixes : List Str) : Bool :=
  tunnelSuffixes.any (hasSuffix (fqdn (toLower content)))

def relOwner (name apex : Str) : Str :=
  let name := fqdn (toLower name)
  if name = apex then [] else trimSuffix (trimSuffix name apex) ['.']

def ownerFQDN (owner apex : Str) : Str :=
  if owner = [] then apex
  else if owner = ['*'] then wildcardProbe ++ '.' :: apex
  else owner ++ '.' :: apex

def synthSOA (apex : Str) : Model.RR where
  name := apex
  type := typeSOA
  cls := classINET
  ttl := 3600
  content := apex ++ " hostmaster.".toList ++ apex ++ " 1 7200 3600 1209600 300".toList

/-- The data of a record by its type, nothing for the types that are not mirrored. -/
def withContent (rr : Model.RR) (r : CFAPI.Record) : Option Model.RR :=
  if rr.type = typeA || rr.type = typeAAAA || rr.type = typeCAA || rr.type = typeTLSA then
    some { rr with content := r.content }
  else if rr.type = typeCNAME || rr.type = typeNS || rr.type = typePTR then
    some { rr with content := fqdn r.content, target := fqdn r.content }
  else if rr.type = typeMX then
    (coercePriority r.priority).map fun pr => { rr with priority := pr, target := fqdn r.content }
  else if rr.type = typeSRV then
    (parseSRVContent r.content).map fun (w, p, t) =>
      { rr with
        priority := (coercePriority r.priority).getD 0, weight := w, port := p, target := t }
  else if rr.type = typeTXT then some { rr with content := quoteTXT r.content }
  else none

/-- The record as it is served, if it is mirrored and renders. -/
def toModelRR (newRR : NewRR) (r : CFAPI.Record) (zoneID : Str) : Option Model.RR := do
  let typ ← stringToType (toUpper r.type)
  let rr ← withContent { name := fqdn (toLower r.name), type := typ, cls := classINET,
                         ttl := ttlOr r.ttl, proxied := r.proxied, zoneID, recordID := r.id } r
  if (rr.toMiekg newRR).isOk then some rr else none

end Records

section Building

variable (newRR : NewRR) (apex zoneID : Str) (tunnelSuffixes : List Str)

/-- The zone being built, with the owners of tunnel aliases seen so far. -/
structure Scan where
  zone : Zone
  tunnelOwners : KeySet Str := ∅

def store (z : Zone) (owner : Str) (rr : Model.RR) : Zone :=
  if owner = ['*'] then { z with wildcards := z.wildcards.appendAt rr.type rr }
  else
    { z with
      records := z.records.insert owner
        (Map.appendAt ((z.records.lookup owner).getD ∅) rr.type rr) }

def scanRecord (s : Scan) (r : CFAPI.Record) : Scan :=
  let owner := relOwner r.name apex
  match toModelRR newRR r zoneID with
  | none => s
  | some rr =>
    if rr.type = typeCNAME && isTunnelTarget rr.content tunnelSuffixes then
      { s with tunnelOwners := s.tunnelOwners.insert owner () }
    else
      let z := store s.zone owner rr
      { s with zone := if rr.type = typeNS && owner = [] then { z with ns := z.ns ++ [rr] } else z }

def scan (recs : List CFAPI.Record) : Scan :=
  recs.foldl (scanRecord newRR apex zoneID tunnelSuffixes) { zone := { id := zoneID, apex } }

/-- The record sets of the addresses presented for a tunnel owner. -/
def tunnelSets (v4 v6 : List Addr) : RRsets :=
  let ta := v4.foldl (fun ta a => Map.appendAt ta typeA (addrRR a)) ∅
  v6.foldl (fun ta a => Map.appendAt ta typeAAAA (addrRR a)) ta

/-- The addresses of one tunnel owner, left out when the resolver fails or has none. -/
def flatten (tr : TunnelResolver) (z : Zone) (owner : Str) : Zone :=
  match tr (ownerFQDN owner z.apex) with
  | .error _ => z
  | .ok (v4, v6) =>
    let ta := tunnelSets v4 v6
    if ta.entries = [] then z else { z with tunnelAddr := z.tunnelAddr.insert owner ta }

def interior (owner : Str) : List Str :=
  let labels := split owner '.'
  (List.range' 1 (labels.length - 1)).map fun i => join (labels.drop i) '.'

def deriveENT (z : Zone) : Zone :=
  { z with
    ent := ((z.records.keys.flatMap interior).filter fun anc =>
      anc ≠ [] ∧ anc ∉ z.records).toFinset }

def buildZone (recs : List CFAPI.Record) (tr : TunnelResolver) : Zone :=
  let apex := fqdn (toLower apex)
  let s := scan newRR apex zoneID tunnelSuffixes recs
  let z := s.tunnelOwners.keys.foldl (flatten tr) s.zone
  { deriveENT z with soa := synthSOA apex }

end Building

end Mirror

end SplitDNS
