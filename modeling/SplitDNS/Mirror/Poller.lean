import SplitDNS.Mirror.Snapshot
import SplitDNS.Mirror.WarmCache

/-! # The poller

The mirror over the life of the daemon. A cycle of the poller asks for the
serial of every configured zone and refreshes the snapshot if one of them is
newer than the records, on the first cycle, or when the last refresh is too long
ago. A refresh builds all zones anew, publishes them and saves them. A restart
publishes what the warm cache has, under the configuration of the new process.
-/

namespace SplitDNS.Mirror

open Go Go.Strings Dns Model Config

def withSOASerial (soa : Model.RR) (serial : UInt32) : Model.RR :=
  let f := fields soa.content
  if f.length ≠ 7 then soa
  else { soa with content := join (f.set 2 (formatUint serial.toNat)) ' ' }

/-- A zone with the serial that was polled for it, if one was. -/
def stamp (observed : Map Str UInt32) (apex : Str) (z : Zone) : Zone :=
  match observed.lookup (trimSuffix apex ['.']) with
  | none => z
  | some s => { z with lastFetchedSerial := s, soa := withSOASerial z.soa s }

def stampAll (observed : Map Str UInt32) (zones : Map Str (Option Zone)) : Map Str (Option Zone) :=
  zones.mapValues fun apex oz => oz.map (stamp observed apex)

def inOrder (ord : RangeOrder Str (Option Zone)) (zones : Map Str (Option Zone)) :
    List (Str × Zone) :=
  (ord.visit zones).filterMap fun p => p.2.map (p.1, ·)

theorem mem_inOrder {ord : RangeOrder Str (Option Zone)} {zones : Map Str (Option Zone)}
    {p : Str × Zone} : p ∈ inOrder ord zones ↔ zones.lookup p.1 = some (some p.2) := by
  obtain ⟨apex, z⟩ := p
  rw [inOrder, List.mem_filterMap, Map.lookup_eq_some_iff_mem_entries]
  constructor
  · rintro ⟨⟨apex', oz⟩, hmem, heq⟩
    obtain ⟨z', rfl, heq⟩ := Option.map_eq_some_iff.mp heq
    cases heq
    exact (ord.perm zones).mem_iff.mp hmem
  · intro hmem
    exact ⟨⟨apex, some z⟩, (ord.perm zones).mem_iff.mpr hmem, rfl⟩

/-- The process and its cache directory. The snapshots that the process has published are newest
first; `last` is the one that a republish starts from. -/
structure Daemon where
  cfg : Config := {}
  revZones : List Str := []
  cache : WarmCache := {}
  published : List Snapshot := []
  last : Option Snapshot := none
  states : Map Str SerialState := ∅
  lastFull : Option Time := none

/-- What a refresh meets: the account, the resolver of tunnels, the providers, the orders of its
loops and the number of zone files after which saving fails, if it does. -/
structure Surroundings where
  lister : Option ZoneLister
  tr : TunnelResolver
  vhosts : Finset Str := ∅
  ddr : Option DDRAdvert := none
  ordZones : RangeOrder Str Str := default
  ordStub : RangeOrder Str (List Str) := default
  ordSave : RangeOrder Str (Option Zone) := default
  saveFails : Option ℕ := none
  now : Time

def Surroundings.finish (s : Surroundings) (observed : Map Str UInt32) (snap : Snapshot) :
    Snapshot :=
  { snap with zones := stampAll observed snap.zones, vhosts := s.vhosts, ddr := s.ddr }

structure Start where
  cfg : Config
  revZones : List Str := []
  vhosts : Finset Str := ∅
  ddr : Option DDRAdvert := none
  ordStub : RangeOrder Str (List Str) := default
  ordIndex : RangeOrder Str IndexEntry := default
  now : Time

def zoneNames (cfg : Config) : List Str :=
  cfg.zones.localZones.map fun z => toLower (trimSuffix z ['.'])

/-- A cycle of the poller: the results of its queries, the times at which it decides and ends, and
what a refresh would meet. -/
structure Poll where
  serials : List (Option UInt32)
  now : Time
  done : Time
  surroundings : Surroundings

def Poll.polled (p : Poll) (cfg : Config) : List (Str × UInt32) :=
  ((zoneNames cfg).zip p.serials).filterMap fun q => q.2.map (q.1, ·)

/-- The serials by zone name; of a name that is listed twice, the last one. -/
def Poll.observed (p : Poll) (cfg : Config) : Map Str UInt32 :=
  (p.polled cfg).foldl (fun m q => m.insert q.1 q.2) ∅

def forcedInterval : Duration := 6 * hour

namespace Daemon

variable (newRR : NewRR)

def publish (d : Daemon) (snap : Snapshot) : Daemon :=
  { d with published := snap :: d.published, last := some snap }

def refresh (d : Daemon) (observed : Map Str UInt32) (s : Surroundings) : Except Str Daemon :=
  match buildSnapshot newRR s.tr d.cfg s.lister d.revZones s.ordZones s.ordStub with
  | .error e => .error e
  | .ok snap =>
    let snap := s.finish observed snap
    .ok { d.publish snap with
      cache := d.cache.save (inOrder s.ordSave snap.zones) s.now s.saveFails }

/-- Whether a serial calls for the records of its zone. -/
def needs (d : Daemon) (p : Poll) : Bool :=
  (p.polled d.cfg).any fun q => ((d.states.lookup q.1).getD {}).shouldFetch q.2

/-- Whether a cycle refreshes: some zone needs it, the last refresh is too long ago, or there was
none yet and a serial was observed. -/
def due (d : Daemon) (p : Poll) : Bool :=
  d.needs p || d.lastFull.any (fun t => forcedInterval ≤ p.now - t) ||
    (d.lastFull.isNone && !(p.observed d.cfg).entries.isEmpty)

/-- `cycle`, with whether it confirms that the mirror is current. -/
def cycle (d : Daemon) (p : Poll) : Daemon × Bool :=
  let observed := p.observed d.cfg
  if d.due p then
    match d.refresh newRR observed p.surroundings with
    | .error _ => (d, false)
    | .ok d =>
      ({ d with
          states := observed.entries.foldl (fun m q => m.insert q.1 ⟨q.2, true⟩) d.states
          lastFull := some p.done }, true)
  else (d, !observed.entries.isEmpty)

def buildOnce (d : Daemon) (s : Surroundings) : Daemon :=
  match d.refresh newRR ∅ s with
  | .error _ => d
  | .ok d => d

def republish (d : Daemon) (vhosts : Finset Str) (ddr : Option DDRAdvert) : Daemon :=
  match d.last with
  | none => d
  | some last => d.publish { last with vhosts, ddr }

/-- A new process: the snapshot without mirrored zones, and the one of the warm cache if that has
any. -/
def restart (d : Daemon) (s : Start) : Daemon :=
  let base := baseSnapshot s.cfg s.revZones s.ordStub
  let zones := d.cache.loadZones s.now s.ordIndex
  let fresh : Daemon :=
    { cfg := s.cfg, revZones := s.revZones, cache := d.cache, published := [base]
      states := d.cache.loadStates s.ordIndex }
  if zones.entries.isEmpty then fresh
  else fresh.publish { base with zones, vhosts := s.vhosts, ddr := s.ddr }

end Daemon

inductive Occurrence where
  | cycle (p : Poll)
  | buildOnce (s : Surroundings)
  | republish (vhosts : Finset Str) (ddr : Option DDRAdvert)
  | lose (index : Bool) (names : List Str)
  | restart (s : Start)

namespace Daemon

def step (newRR : NewRR) (d : Daemon) : Occurrence → Daemon
  | .cycle p => (d.cycle newRR p).1
  | .buildOnce s => d.buildOnce newRR s
  | .republish vhosts ddr => d.republish vhosts ddr
  | .lose index names => { d with cache := d.cache.lose index names }
  | .restart s => d.restart s

variable {newRR : NewRR} {d : Daemon}

theorem refresh_eq_ok {observed : Map Str UInt32} {s : Surroundings} {d' : Daemon}
    (h : d.refresh newRR observed s = .ok d') :
    ∃ snap, buildSnapshot newRR s.tr d.cfg s.lister d.revZones s.ordZones s.ordStub = .ok snap ∧
      d' = { d.publish (s.finish observed snap) with
        cache := d.cache.save (inOrder s.ordSave (s.finish observed snap).zones) s.now
          s.saveFails } := by
  unfold refresh at h
  split at h
  · cases h
  · cases h
    exact ⟨_, by assumption, rfl⟩

theorem cycle_cases (p : Poll) :
    (∃ d', d.refresh newRR (p.observed d.cfg) p.surroundings = .ok d' ∧
      d.cycle newRR p = ({ d' with
        states := (p.observed d.cfg).entries.foldl (fun m q => m.insert q.1 ⟨q.2, true⟩) d'.states
        lastFull := some p.done }, true)) ∨
    ((d.cycle newRR p).1 = d ∧ ((d.cycle newRR p).2 = true → d.due p = false)) := by
  unfold cycle
  dsimp only
  by_cases hdue : d.due p = true
  · rw [if_pos hdue]
    rcases hr : d.refresh newRR (p.observed d.cfg) p.surroundings with e | d'
    · exact Or.inr ⟨rfl, fun h => by cases h⟩
    · exact Or.inl ⟨d', rfl, rfl⟩
  · rw [if_neg hdue]
    exact Or.inr ⟨rfl, fun _ => Bool.not_eq_true _ ▸ hdue⟩

end Daemon

end SplitDNS.Mirror
