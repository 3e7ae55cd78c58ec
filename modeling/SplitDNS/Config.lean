import Mathlib.Data.List.Sort
import SplitDNS.Go.Maps
import SplitDNS.Go.Netip
import SplitDNS.Go.Strings

/-! # Configuration

The settings a snapshot is made from, with the normal forms the accessors give
them. The loader reads the fields as they stand in the file.
-/

namespace SplitDNS.Revzone

open Go Go.Strings

inductive Scope where
  | scopeOff
  | scopePrivate
  | scopeGlobal
  | scopeAll
  deriving DecidableEq, Repr

/-- `ValidScope`, with the scope that the text names. -/
def validScope (s : Str) : Option Scope :=
  [("off".toList, Scope.scopeOff), ("private".toList, .scopePrivate),
    ("global".toList, .scopeGlobal), ("all".toList, .scopeAll)].lookup s

def contains (parent child : Str) : Bool := parent = child || hasSuffix child ('.' :: parent)

end SplitDNS.Revzone

namespace SplitDNS

open Go Go.Netip Go.Strings Revzone

namespace Config

structure ZonesConfig where
  localZones : List Str := []
  stub : Map Str (List Str) := ∅
  reverse : List Str := []
  reverseDetect : Str := []

structure MDNSConfig where
  localDomain : Str := []
  serveDNSSD : Bool := false

structure VHostConfig where
  proxyV4 : Str := []
  proxyV6 : Str := []
  excludeZones : List Str := []

structure CFConfig where
  tunnelSuffixes : List Str := []

structure DDNSConfig where
  eligible : List Str := []

def MDNSConfig.localDomainLabel (m : MDNSConfig) : Str :=
  trim (toLower (trimSpace m.localDomain)) '.'

/-- The suffixes of tunnel aliases with a dot at both ends, the default if none is set. -/
def CFConfig.resolvedTunnelSuffixes (c : CFConfig) : List Str :=
  let src := if c.tunnelSuffixes = [] then ["cfargotunnel.com".toList] else c.tunnelSuffixes
  ((src.map fun s => toLower (trim (trimSpace s) '.')).filter (· ≠ [])).map fun s =>
    '.' :: s ++ ['.']

end Config

open Config in
/-- `config.Config`, the sections that a snapshot depends on. -/
structure Config where
  zones : ZonesConfig := {}
  mdns : MDNSConfig := {}
  vhost : VHostConfig := {}
  cloudflare : CFConfig := {}
  ddns : DDNSConfig := {}

namespace Config

def ensureDot (s : Str) : Str := if s = [] || hasSuffix s ['.'] then s else s ++ ['.']

/-- The configured reverse zones in their normal form, each once. -/
def ZonesConfig.explicit (z : ZonesConfig) : List Str :=
  (z.reverse.map fun z => ensureDot (toLower (trimSpace z))).foldl (fun explicit z =>
    if z ≠ [] && !explicit.contains z then explicit ++ [z] else explicit) []

/-- `ResolveReverseZones`: the configured zones and those derived from the interfaces that none of
them contains, and the prefixes refused. `quote` is the verb for quoted text; `detected` are the
zones and the unaligned prefixes of the interfaces. -/
def resolveReverseZones (quote : Str → Str)
    (detected : Scope → Except Str (List Str × List Prefix)) (c : Config) :
    Except Str (List Str × List Prefix) :=
  let scope := if c.zones.reverseDetect = [] then "off".toList else c.zones.reverseDetect
  match validScope scope with
  | none => .error ("zones.reverse_detect ".toList ++ quote scope ++ " unknown".toList)
  | some .scopeOff => .ok (c.zones.explicit.insertionSort (· ≤ ·), [])
  | some scope =>
    match detected scope with
    | .error e => .error e
    | .ok (derived, unaligned) =>
      let uncovered := derived.filter fun z => !c.zones.explicit.any (contains · z)
      .ok ((c.zones.explicit ++ uncovered).dedup.insertionSort (· ≤ ·), unaligned)

end Config

end SplitDNS
