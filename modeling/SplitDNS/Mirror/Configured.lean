import SplitDNS.Dns.Presentation
import SplitDNS.Mirror.Poller
import SplitDNS.Runs.Basic

/-! # Mirrored zones and the configuration

A refresh builds the zones of the configuration only. A restart serves whatever
zones the warm cache has, so that all published zones are configured ones
exactly if those are at every restart.
-/

namespace SplitDNS.Mirror

open Go Go.Strings Dns Model Config

/-- The configured zones, lower-cased and fully qualified. -/
def apexes (cfg : Config) : List Str := (zoneNames cfg).map fqdn

def Configured (cfg : Config) (snap : Snapshot) : Prop := ∀ apex ∈ snap.zones, apex ∈ apexes cfg

theorem mem_addZone {newRR : NewRR} {tr : TunnelResolver} {cfg : Config} {l : ZoneLister}
    {ids : Map Str Str} {zones zones' : Map Str (Option Zone)} {zname apex : Str}
    (h : addZone newRR tr cfg l ids zones zname = .ok zones') (hmem : apex ∈ zones') :
    apex ∈ zones ∨ apex = fqdn (toLower (trimSuffix zname ['.'])) := by
  unfold addZone at h
  dsimp only at h
  split at h
  · cases h
    exact Or.inl hmem
  · split at h
    · cases h
    · cases h
      exact ((AList.mem_insert _).mp hmem).symm

theorem configured_buildSnapshot {newRR : NewRR} {tr : TunnelResolver} {cfg : Config}
    {l : Option ZoneLister} {revZones : List Str} {ord : RangeOrder Str Str}
    {ordStub : RangeOrder Str (List Str)} {snap : Snapshot}
    (h : buildSnapshot newRR tr cfg l revZones ord ordStub = .ok snap) : Configured cfg snap := by
  rcases buildSnapshot_eq_ok h with ⟨-, rfl⟩ | ⟨l, ids, zones, -, -, hloop, rfl⟩
  · intro apex hmem
    exact absurd hmem (AList.notMem_empty apex)
  · refine @Runs.inv_foldlM _ _ _ _ (fun _ zones => ∀ apex ∈ zones, apex ∈ apexes cfg) _ _ _ hloop
      (fun apex hmem => absurd hmem (AList.notMem_empty apex)) ?_
    intro _ zname hzname zones zones' hzones hadd apex hmem
    rcases mem_addZone hadd hmem with hmem | rfl
    · exact hzones apex hmem
    · exact List.mem_map_of_mem (List.mem_map_of_mem hzname)

theorem Configured.finish {cfg : Config} {snap : Snapshot} (h : Configured cfg snap)
    (s : Surroundings) (observed : Map Str UInt32) : Configured cfg (s.finish observed snap) := by
  intro apex hmem
  rw [← AList.lookup_isSome, Surroundings.finish, stampAll, Map.lookup_mapValues,
    Option.isSome_map, AList.lookup_isSome] at hmem
  exact h apex hmem

namespace Daemon

variable {newRR : NewRR} {d : Daemon}

/-- Every snapshot of the process has configured zones only. -/
structure AllConfigured (d : Daemon) : Prop where
  published : ∀ snap ∈ d.published, Configured d.cfg snap
  last : ∀ snap ∈ d.last, Configured d.cfg snap

theorem AllConfigured.publish (h : d.AllConfigured) {snap : Snapshot}
    (hsnap : Configured d.cfg snap) : (d.publish snap).AllConfigured := by
  constructor
  · intro s hs
    rcases List.mem_cons.mp hs with rfl | hs
    · exact hsnap
    · exact h.published s hs
  · rintro s ⟨⟩
    exact hsnap

theorem AllConfigured.refresh (h : d.AllConfigured) {observed : Map Str UInt32} {s : Surroundings}
    {d' : Daemon} (hr : d.refresh newRR observed s = .ok d') : d'.AllConfigured := by
  obtain ⟨snap, hb, rfl⟩ := refresh_eq_ok hr
  have hsnap := (configured_buildSnapshot hb).finish s observed
  exact ⟨(h.publish hsnap).published, (h.publish hsnap).last⟩

/-- The zones that can be loaded from the cache are configured. -/
def Loads (c : WarmCache) (cfg : Config) : Prop :=
  ∀ name f, c.file name = some f → fqdn name ∈ apexes cfg

theorem restart_cfg (s : Start) : (d.restart s).cfg = s.cfg := by
  unfold restart
  dsimp only
  split_ifs <;> rfl

theorem restart_last_mem {s : Start} {snap : Snapshot} (h : snap ∈ (d.restart s).last) :
    snap ∈ (d.restart s).published := by
  unfold restart at h ⊢
  dsimp only at h ⊢
  split_ifs at h ⊢
  · cases h
  · cases h
    exact List.mem_cons_self

theorem restart_configured_iff {s : Start} :
    (∀ snap ∈ (d.restart s).published, Configured (d.restart s).cfg snap) ↔
      Loads d.cache s.cfg := by
  have hbase : Configured s.cfg (baseSnapshot s.cfg s.revZones s.ordStub) :=
    fun apex hmem => absurd hmem (AList.notMem_empty apex)
  rw [restart_cfg]
  unfold restart
  dsimp only
  split_ifs with hempty
  · constructor
    · intro _ name f hf
      have hmem : fqdn name ∈ d.cache.loadZones s.now s.ordIndex :=
        WarmCache.mem_loadZones.mpr ⟨name, f, hf, rfl⟩
      rw [← AList.lookup_isSome, Map.entries_eq_nil_iff.mp (List.isEmpty_iff.mp hempty)] at hmem
      cases hmem
    · rintro - snap hsnap
      rw [List.mem_singleton.mp hsnap]
      exact hbase
  · constructor
    · intro hpub name f hf
      exact hpub _ List.mem_cons_self _ (WarmCache.mem_loadZones.mpr ⟨name, f, hf, rfl⟩)
    · intro hload snap hsnap
      rcases List.mem_cons.mp hsnap with rfl | hsnap
      · intro apex hmem
        obtain ⟨name, f, hf, rfl⟩ := WarmCache.mem_loadZones.mp hmem
        exact hload name f hf
      · rw [List.mem_singleton.mp hsnap]
        exact hbase

theorem AllConfigured.cycle (h : d.AllConfigured) (p : Poll) :
    (d.cycle newRR p).1.AllConfigured := by
  rcases @cycle_cases newRR d p with ⟨d', hr, heq⟩ | ⟨heq, -⟩
  · rw [heq]
    exact ⟨(h.refresh hr).published, (h.refresh hr).last⟩
  · rw [heq]
    exact h

theorem AllConfigured.step (h : d.AllConfigured) (e : Occurrence)
    (hload : ∀ s, e = .restart s → Loads d.cache s.cfg) : (d.step newRR e).AllConfigured := by
  cases e with
  | cycle p => exact h.cycle p
  | buildOnce s =>
    change (d.buildOnce newRR s).AllConfigured
    rcases hr : d.refresh newRR ∅ s with err | d'
    · rw [buildOnce, hr]
      exact h
    · rw [buildOnce, hr]
      exact h.refresh hr
  | republish vhosts ddr =>
    change (d.republish vhosts ddr).AllConfigured
    rcases hl : d.last with _ | last
    · rw [republish, hl]
      exact h
    · rw [republish, hl]
      exact h.publish (h.last last hl)
  | lose index names => exact ⟨h.published, h.last⟩
  | restart s =>
    have hpub := restart_configured_iff.mpr (hload s rfl)
    exact ⟨hpub, fun snap hsnap => hpub snap (restart_last_mem hsnap)⟩

/-- All zones ever published are configured exactly if those that can be loaded are at every
restart. -/
theorem published_configured_iff (newRR : NewRR) (cache : WarmCache) (es : List Occurrence) :
    Runs.Always (step newRR) { cache } (fun _ d e =>
        ∀ snap ∈ (d.step newRR e).published, Configured (d.step newRR e).cfg snap) es ↔
      Runs.Always (step newRR) { cache } (fun _ d e =>
        ∀ s, e = .restart s → Loads d.cache s.cfg) es := by
  constructor
  · rintro h pre e post hes s rfl
    exact restart_configured_iff.mp (h pre _ post hes)
  · intro h
    refine @Runs.always_of_inv _ _ _ _ (fun _ d => d.AllConfigured)
      (fun _ d e => ∀ s, e = .restart s → Loads d.cache s.cfg) _ ?_ ?_ ?_ _ h
    · exact ⟨fun _ hsnap => (by cases hsnap), fun _ hsnap => (by cases hsnap)⟩
    · exact fun _ d e hd hload => hd.step e hload
    · exact fun _ d e hd hload => (hd.step e hload).published

def localOnly (zones : List Str) : Config := { zones := { localZones := zones } }

def account (name : Str) : ZoneLister where
  zones := .ok (Map.ofList [("id".toList, name)])
  allRecords _ := .ok []

/-- A zone that is not configured any more is served from the warm cache. -/
theorem dropped_zone_published :
    (([.restart { cfg := localOnly ["old.test".toList], now := 0 },
        .buildOnce
          { lister := some (account "old.test".toList), tr := fun _ => .error [], now := 0 },
        .restart { cfg := localOnly ["new.test".toList], now := 0 }].foldl
      (step readLine) {}).published.map fun snap => snap.zones.keys) =
        [["old.test.".toList], []] ∧
    apexes (localOnly ["new.test".toList]) = ["new.test.".toList] :=
  ⟨rfl, by decide⟩

end Daemon

end SplitDNS.Mirror
