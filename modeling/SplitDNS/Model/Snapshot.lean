import Mathlib.Data.Finset.Basic
import SplitDNS.Go.Maps
import SplitDNS.Model.Record

/-! # Snapshots

The immutable data a query is answered from: the snapshot of zones, static
names and redirects, and the view of the hosts announced on the local network.
-/

namespace SplitDNS.Model

open Go Go.Netip Dns

abbrev RRsets := Map RRType (List RR)

def rrsetOf (m : Option RRsets) (t : RRType) : List RR := (m.bind (·.lookup t)).getD []

/-- `model.Zone`. Owners are relative to the apex, the apex itself being empty. -/
structure Zone where
  id : Str := []
  apex : Str
  ns : List RR := []
  soa : RR := {}
  records : Map Str RRsets := ∅
  wildcards : RRsets := ∅
  ent : Finset Str := ∅
  tunnelAddr : Map Str RRsets := ∅
  lastFetchedSerial : UInt32 := 0
  syntheticStale : Bool := false
  stale : Bool := false

structure AddrPort where
  addr : Addr
  port : UInt16
  deriving DecidableEq, Repr

structure StubZone where
  apex : Str
  target : List AddrPort
  deriving DecidableEq, Repr

structure RevZone where
  apex : Str
  soa : RR
  deriving DecidableEq, Repr

structure DDREndpoint where
  port : UInt16
  path : Str := []
  deriving DecidableEq, Repr

structure DDRAdvert where
  adn : Str
  v4Hints : List Addr := []
  v6Hints : List Addr := []
  dot : Option DDREndpoint := none
  doh : Option DDREndpoint := none
  deriving DecidableEq, Repr

/-- `model.Snapshot`. A zone pointer in `zones` may be nil. -/
structure Snapshot where
  zones : Map Str (Option Zone) := ∅
  stubZones : Map Str StubZone := ∅
  reverseZ : Map Str RevZone := ∅
  vhosts : Finset Str := ∅
  excluded : Finset Str := ∅
  static : Map Str (List RR) := ∅
  ddnsEligible : Finset Str := ∅
  localDomain : Str := []
  serveDNSSD : Bool := false
  allowSuffix : List Str := []
  cfHealthy : Bool := false
  vhostV4 : Addr := .invalid
  vhostV6 : Addr := .invalid
  ddr : Option DDRAdvert := none

structure MDNSService where
  type : Str
  port : UInt16 := 0
  text : List Str := []
  deriving DecidableEq, Repr

structure MDNSView where
  forward : Map Str (List RR) := ∅
  reverse : Map Str (List RR) := ∅
  services : Map Str (List MDNSService) := ∅
  info : Map Str Str := ∅

end SplitDNS.Model
