import Mathlib.Data.List.Sort
import SplitDNS.Config
import SplitDNS.Mirror.Zone

/-! # Snapshots from the configuration

The base snapshot holds what the configuration alone determines: reverse and
stub zones, the redirect and the suffixes exempt from the rebind filter. The
mirror adds the configured zones that the account has.
-/

namespace SplitDNS.Mirror

open Go Go.Netip Go.Strings Dns Model Config

/-- The part of the provider's API that the mirror needs: zone names by identifier, and the records
of a zone. -/
structure ZoneLister where
  zones : Except Str (Map Str Str)
  allRecords : Str → Except Str (List CFAPI.Record)

def healthName : Str := "health.splitdnsd.local.".toList

section Base

variable (cfg : Config) (revZones : List Str)

def reverseZones : Map Str RevZone :=
  revZones.foldl (fun m z => m.insert (fqdn z) ⟨fqdn z, synthSOA (fqdn z)⟩) ∅

/-- A stub zone with those of its targets that are an address and a port. -/
def stubZone (apex : Str) (targets : List Str) : StubZone where
  apex := fqdn apex
  target := (targets.filterMap parseAddrPort).map fun p => ⟨p.1, p.2⟩

/-- `BaseSnapshot`, for an order in which the loop visits the stub zones. -/
def baseSnapshot (ord : RangeOrder Str (List Str)) : Snapshot :=
  let stubs := ord.visit cfg.zones.stub
  { reverseZ := reverseZones revZones
    stubZones := stubs.foldl (fun m p => m.insert (fqdn p.1) (stubZone p.1 p.2)) ∅
    excluded := (cfg.vhost.excludeZones.map fun z => fqdn (toLower z)).toFinset
    static := Map.ofList [(healthName,
      [{ name := healthName, type := typeA, cls := classINET, ttl := 60,
         content := "127.0.0.1".toList }])]
    ddnsEligible := (cfg.ddns.eligible.map fun e => fqdn (toLower (trimSpace e))).toFinset
    localDomain := cfg.mdns.localDomainLabel
    serveDNSSD := cfg.mdns.serveDNSSD
    allowSuffix := (revZones.map fqdn ++ stubs.map (fun p => fqdn p.1) ++
      cfg.zones.localZones.map fqdn).insertionSort (· ≤ ·)
    vhostV4 := (parseAddr cfg.vhost.proxyV4).getD .invalid
    vhostV6 := (parseAddr cfg.vhost.proxyV6).getD .invalid }

theorem lookup_reverseZones {apex : Str} {rz : RevZone}
    (h : (reverseZones revZones).lookup apex = some rz) :
    rz = ⟨apex, synthSOA apex⟩ ∧ '.' ∈ apex := by
  unfold reverseZones at h
  revert h
  refine List.foldlRecOn (motive := fun m : Map Str RevZone => m.lookup apex = some rz → _)
    revZones _ ?_ fun m ih z _ h => ?_
  · intro h
    cases h
  · rw [Map.lookup_insert_eq_ite] at h
    split_ifs at h with heq
    · cases h
      rw [heq]
      exact ⟨rfl, (dot_suffix_fqdn z).subset (List.mem_singleton_self _)⟩
    · exact ih h

end Base

section Build

variable (newRR : NewRR) (tr : TunnelResolver) (cfg : Config)

/-- The identifiers by lower-case name; of names that differ in case only, the last visited wins. -/
def nameToID (zones : Map Str Str) (ord : RangeOrder Str Str) : Map Str Str :=
  (ord.visit zones).foldl (fun m p => m.insert (toLower p.2) p.1) ∅

def addZone (l : ZoneLister) (ids : Map Str Str) (zones : Map Str (Option Zone)) (zname : Str) :
    Except Str (Map Str (Option Zone)) :=
  let zname := toLower (trimSuffix zname ['.'])
  match ids.lookup zname with
  | none => .ok zones
  | some id =>
    match l.allRecords id with
    | .error e => .error ("mirror: records for ".toList ++ zname ++ ": ".toList ++ e)
    | .ok recs => .ok (zones.insert (fqdn zname)
        (some (buildZone newRR zname id cfg.cloudflare.resolvedTunnelSuffixes recs tr)))

/-- `BuildSnapshot`, for orders in which its loops visit the account's zones and the stub zones. -/
def buildSnapshot (l : Option ZoneLister) (revZones : List Str) (ord : RangeOrder Str Str)
    (ordStub : RangeOrder Str (List Str)) : Except Str Snapshot :=
  let base := baseSnapshot cfg revZones ordStub
  match l with
  | none => .ok base
  | some l =>
    match l.zones with
    | .error e => .error ("mirror: list zones: ".toList ++ e)
    | .ok zones =>
      match cfg.zones.localZones.foldlM (addZone newRR tr cfg l (nameToID zones ord)) ∅ with
      | .error e => .error e
      | .ok zones => .ok { base with zones, cfHealthy := true }

theorem buildSnapshot_eq_ok {newRR : NewRR} {tr : TunnelResolver} {cfg : Config}
    {l : Option ZoneLister} {revZones : List Str} {ord : RangeOrder Str Str}
    {ordStub : RangeOrder Str (List Str)} {snap : Snapshot}
    (h : buildSnapshot newRR tr cfg l revZones ord ordStub = .ok snap) :
    l = none ∧ snap = baseSnapshot cfg revZones ordStub ∨
      ∃ l' ids zones, l = some l' ∧ l'.zones = .ok ids ∧
        cfg.zones.localZones.foldlM (addZone newRR tr cfg l' (nameToID ids ord)) ∅ = .ok zones ∧
        snap = { baseSnapshot cfg revZones ordStub with zones, cfHealthy := true } := by
  rcases l with _ | l
  · cases h
    exact Or.inl ⟨rfl, rfl⟩
  · unfold buildSnapshot at h
    dsimp only at h
    split at h
    · cases h
    next ids hids =>
      split at h
      · cases h
      next zones hzones =>
        cases h
        exact Or.inr ⟨l, ids, zones, rfl, hids, hzones, rfl⟩

end Build

/-- The snapshots of a configuration: the base one, and what the mirror makes of any account. -/
def Obtained (newRR : NewRR) (cfg : Config) (snap : Snapshot) : Prop :=
  ∃ revZones ordStub, snap = baseSnapshot cfg revZones ordStub ∨
    ∃ l tr ord, buildSnapshot newRR tr cfg l revZones ord ordStub = .ok snap

theorem Obtained.vhost {newRR : NewRR} {cfg : Config} {snap : Snapshot}
    (h : Obtained newRR cfg snap) : snap.vhostV4 = (parseAddr cfg.vhost.proxyV4).getD .invalid ∧
      snap.vhostV6 = (parseAddr cfg.vhost.proxyV6).getD .invalid := by
  obtain ⟨revZones, ordStub, rfl | ⟨l, tr, ord, h⟩⟩ := h
  · exact ⟨rfl, rfl⟩
  · rcases buildSnapshot_eq_ok h with ⟨-, rfl⟩ | ⟨l, ids, zones, -, -, -, rfl⟩
    · exact ⟨rfl, rfl⟩
    · exact ⟨rfl, rfl⟩

end SplitDNS.Mirror
