import SplitDNS.Dns.Presentation
import SplitDNS.Mirror.Configured

/-! # Currency of the mirror

A zone whose upstream goes through versions, each with its records and a later
serial. A cycle that confirms the mirror and has observed the serial of the zone
leaves the current version published, provided that no restart takes over a
serial that was never polled.
-/

namespace SplitDNS.Mirror

open Go Go.Strings Dns Model Config

structure Upstream where
  serial : ℕ → UInt32
  records : ℕ → List CFAPI.Record

def content (z : Zone) : Zone :=
  { z with soa := {}, lastFetchedSerial := 0, syntheticStale := false, stale := false }

section Versions

variable (newRR : NewRR) (cfg : Config) (name : Str) (up : Upstream)

/-- The zone was built from the records of a version. -/
def IsVersion (z : Zone) (v : ℕ) : Prop :=
  ∃ id tr, content z =
    content (buildZone newRR name id cfg.cloudflare.resolvedTunnelSuffixes (up.records v) tr)

/-- The last published snapshot has the zone in a version. -/
def Holds (d : Daemon) (v : ℕ) : Prop :=
  ∃ snap z, d.published.head? = some snap ∧ snap.zones.lookup (fqdn name) = some (some z) ∧
    IsVersion newRR cfg name up z v

/-- The account has the zone, and lists the records of a version for it. -/
def Lists (s : Surroundings) (v : ℕ) : Prop :=
  ∃ l, s.lister = some l ∧ ∀ zones, l.zones = .ok zones →
    ∃ id, (nameToID zones s.ordZones).lookup name = some id ∧
      ∀ recs, l.allRecords id = .ok recs → recs = up.records v

/-- What an occurrence gets from the upstream while this goes from one version to another: the
records come from a version that is not before those of the serials. -/
def Truthful (start stop : ℕ) : Occurrence → Prop
  | .cycle p => ∃ v, start ≤ v ∧ v ≤ stop ∧ Lists name up p.surroundings v ∧
      ∀ s, (name, s) ∈ p.polled cfg → ∃ u, start ≤ u ∧ u ≤ v ∧ s = up.serial u
  | .buildOnce s => ∃ v, start ≤ v ∧ v ≤ stop ∧ Lists name up s v
  | .restart s => s.cfg = cfg
  | _ => True

/-- The serial that a restart takes over for records of the zone was polled, or a serial that was
not polled is older than all. -/
def Seeded (N : ℕ) (c : WarmCache) : Prop :=
  ∀ e, c.index.bind (·.lookup name) = some e → e.hasRecords = true → e.serial = 0 →
    ∀ v ≤ N, serialLt 0 (up.serial v) = true

end Versions

/-- An occurrence and the versions of the upstream at its begin and end. -/
structure Staged where
  occurrence : Occurrence
  start : ℕ
  stop : ℕ
  le : start ≤ stop

def Undotted (name : Str) : Prop := ¬ ['.'] <:+ name

theorem fqdn_inj {name name' : Str} (h : Undotted name) (h' : Undotted name')
    (heq : fqdn name = fqdn name') : name = name' := by
  rw [← trimSuffix_fqdn h, heq, trimSuffix_fqdn h']

section Build

variable {newRR : NewRR} {tr : TunnelResolver} {cfg : Config} {l : ZoneLister} {ids : Map Str Str}
  {name id : Str} {recs : List CFAPI.Record}

theorem lookup_addZone {zones zones' : Map Str (Option Zone)} {zname : Str}
    (hid : ids.lookup name = some id) (hrecs : ∀ rs, l.allRecords id = .ok rs → rs = recs)
    (hname : fqdn (toLower (trimSuffix zname ['.'])) = fqdn name →
      toLower (trimSuffix zname ['.']) = name)
    (h : addZone newRR tr cfg l ids zones zname = .ok zones') :
    zones'.lookup (fqdn name) =
      if toLower (trimSuffix zname ['.']) = name then
        some (some (buildZone newRR name id cfg.cloudflare.resolvedTunnelSuffixes recs tr))
      else zones.lookup (fqdn name) := by
  unfold addZone at h
  dsimp only at h
  split_ifs with heq
  · rw [heq, hid] at h
    dsimp only at h
    rcases hr : l.allRecords id with e | rs
    · rw [hr] at h
      cases h
    · rw [hr] at h
      cases h
      rw [AList.lookup_insert, hrecs rs hr]
  · split at h
    · cases h
      rfl
    · split at h
      · cases h
      · cases h
        exact AList.lookup_insert_ne fun hfq => heq (hname hfq.symm)

theorem lookup_buildSnapshot {s : Surroundings} {up : Upstream} {v : ℕ} {revZones : List Str}
    {snap : Snapshot} (hlist : Lists name up s v) (hmem : name ∈ zoneNames cfg)
    (hdots : ∀ n ∈ zoneNames cfg, Undotted n)
    (h : buildSnapshot newRR s.tr cfg s.lister revZones s.ordZones s.ordStub = .ok snap) :
    ∃ id, snap.zones.lookup (fqdn name) = some (some (buildZone newRR name id
      cfg.cloudflare.resolvedTunnelSuffixes (up.records v) s.tr)) := by
  obtain ⟨l, hl, hlist⟩ := hlist
  rcases buildSnapshot_eq_ok h with ⟨hnone, -⟩ | ⟨l', ids, zones, hl', hids, hloop, rfl⟩
  · rw [hl] at hnone
    cases hnone
  obtain rfl : l = l' := Option.some.inj (hl.symm.trans hl')
  obtain ⟨id, hid, hrecs⟩ := hlist ids hids
  refine ⟨id, ?_⟩
  -- The zone is there as soon as its name has been visited.
  refine @Runs.inv_foldlM _ _ _ _ (fun past m =>
    name ∈ past.map (fun z => toLower (trimSuffix z ['.'])) →
      m.lookup (fqdn name) = some (some (buildZone newRR name id
        cfg.cloudflare.resolvedTunnelSuffixes (up.records v) s.tr))) _ _ _ hloop
    (fun hin => (by cases hin)) ?_ hmem
  intro past zname hzname m m' ih hadd hin
  have hconf : toLower (trimSuffix zname ['.']) ∈ zoneNames cfg := List.mem_map_of_mem hzname
  rw [lookup_addZone hid hrecs (fqdn_inj (hdots _ hconf) (hdots _ hmem)) hadd]
  split_ifs with heq
  · rfl
  · rw [List.map_append, List.mem_append] at hin
    exact ih (hin.resolve_right fun h => heq (List.mem_singleton.mp h).symm)

theorem buildZone_lastFetchedSerial (suffixes : List Str) :
    (buildZone newRR name id suffixes recs tr).lastFetchedSerial = 0 := by
  have hscan : (scan newRR (fqdn (toLower name)) id suffixes recs).zone.lastFetchedSerial = 0 := by
    refine List.foldlRecOn (motive := fun s : Scan => s.zone.lastFetchedSerial = 0) recs _ rfl ?_
    intro s hs r _
    have hstore : ∀ owner rr, (store s.zone owner rr).lastFetchedSerial = 0 := by
      intro owner rr
      unfold store
      split_ifs
      · exact hs
      · exact hs
    unfold scanRecord
    dsimp only
    split
    · exact hs
    · split_ifs
      · exact hs
      · exact hstore _ _
      · exact hstore _ _
  refine List.foldlRecOn (motive := fun z : Zone => z.lastFetchedSerial = 0) _ _ hscan ?_
  intro z hz owner _
  unfold flatten
  split
  · exact hz
  · dsimp only
    split_ifs
    · exact hz
    · exact hz

theorem content_stamp (observed : Map Str UInt32) (apex : Str) (z : Zone) :
    content (stamp observed apex z) = content z := by
  unfold stamp
  split <;> rfl

theorem stamp_lastFetchedSerial (observed : Map Str UInt32) (apex : Str) (z : Zone) :
    (stamp observed apex z).lastFetchedSerial =
      (observed.lookup (trimSuffix apex ['.'])).getD z.lastFetchedSerial := by
  unfold stamp
  split
  · rename_i h
    rw [h]
    rfl
  · rename_i h
    rw [h]
    rfl

end Build

section Cache

variable {newRR : NewRR} {cfg : Config} {name : Str} {up : Upstream} {c : WarmCache} {cur : ℕ}

/-- What the cache has of the zone at a version of the upstream: a file of a version, and an index
entry without a serial or with that of a version no later than the file's. -/
structure Kept (newRR : NewRR) (cfg : Config) (name : Str) (up : Upstream) (cur : ℕ)
    (c : WarmCache) : Prop where
  undotted : ∀ n e, c.index.bind (·.lookup n) = some e → Undotted n
  file : ∀ f, c.files.lookup name = some f → ∃ v ≤ cur, IsVersion newRR cfg name up f.zone v
  entry : ∀ e, c.index.bind (·.lookup name) = some e → e.serial = 0 ∨
    ∃ u ≤ cur, e.serial = up.serial u ∧ ∀ f, c.files.lookup name = some f →
      ∃ v, u ≤ v ∧ v ≤ cur ∧ IsVersion newRR cfg name up f.zone v

theorem Kept.mono (h : Kept newRR cfg name up cur c) {cur' : ℕ} (hle : cur ≤ cur') :
    Kept newRR cfg name up cur' c := by
  refine ⟨h.undotted, fun f hf => ?_, fun e he => ?_⟩
  · obtain ⟨v, hv, hver⟩ := h.file f hf
    exact ⟨v, hv.trans hle, hver⟩
  · rcases h.entry e he with h0 | ⟨u, hu, hserial, hf⟩
    · exact Or.inl h0
    · refine Or.inr ⟨u, hu.trans hle, hserial, fun f hfile => ?_⟩
      obtain ⟨v, huv, hv, hver⟩ := hf f hfile
      exact ⟨v, huv, hv.trans hle, hver⟩

theorem Kept.lose (h : Kept newRR cfg name up cur c) (index : Bool) (names : List Str) :
    Kept newRR cfg name up cur (c.lose index names) := by
  have hindex : ∀ n e, (c.lose index names).index.bind (·.lookup n) = some e →
      c.index.bind (·.lookup n) = some e := by
    intro n e he
    obtain ⟨idx, hidx, he⟩ := Option.bind_eq_some_iff.mp he
    exact Option.bind_eq_some_iff.mpr ⟨idx, WarmCache.index_lose hidx, he⟩
  refine ⟨fun n e he => h.undotted n e (hindex n e he),
    fun f hf => h.file f (WarmCache.lookup_files_lose hf),
    fun e he => (h.entry e (hindex name e he)).imp_right ?_⟩
  rintro ⟨u, hu, hserial, hf⟩
  exact ⟨u, hu, hserial, fun f hfile => hf f (WarmCache.lookup_files_lose hfile)⟩

theorem Kept.save_cut (h : Kept newRR cfg name up cur c) {zones : List (Str × Zone)} {z : Zone}
    {v : ℕ} (hcur : cur ≤ v) (hkey : ∀ p ∈ zones, trimSuffix p.1 ['.'] = name → p.2 = z)
    (hver : IsVersion newRR cfg name up z v) (now : Time) (n : ℕ) :
    Kept newRR cfg name up v (c.save zones now (some n)) := by
  have hold := h.mono hcur
  have hfile : ∀ f, (c.save zones now (some n)).files.lookup name = some f →
      f.zone = z ∨ c.files.lookup name = some f := by
    intro f hf
    rcases WarmCache.lookup_files_save hf with ⟨p, hp, hpn, rfl⟩ | hold
    · exact Or.inl (hkey p (List.mem_of_mem_take hp) hpn)
    · exact Or.inr hold
  refine ⟨h.undotted, fun f hf => ?_, fun e he => ?_⟩
  · rcases hfile f hf with rfl | hf
    · exact ⟨v, le_rfl, hver⟩
    · exact hold.file f hf
  · refine (hold.entry e he).imp_right ?_
    rintro ⟨u, hu, hs, hf⟩
    refine ⟨u, hu, hs, fun f hfile' => ?_⟩
    rcases hfile f hfile' with rfl | hfile'
    · exact ⟨v, hu, le_rfl, hver⟩
    · exact hf f hfile'

theorem Kept.save (h : Kept newRR cfg name up cur c) {zones : List (Str × Zone)} {z : Zone} {v : ℕ}
    (hcur : cur ≤ v) (hname : Undotted name) (hmem : (fqdn name, z) ∈ zones)
    (hnames : ∀ p ∈ zones, ∃ n, Undotted n ∧ p.1 = fqdn n)
    (huniq : ∀ p ∈ zones, p.1 = fqdn name → p.2 = z) (hver : IsVersion newRR cfg name up z v)
    (hserial : z.lastFetchedSerial = 0 ∨ ∃ u ≤ v, z.lastFetchedSerial = up.serial u) (now : Time)
    (fails : Option ℕ) : Kept newRR cfg name up v (c.save zones now fails) := by
  have hkey : ∀ p ∈ zones, trimSuffix p.1 ['.'] = name → p.2 = z := by
    intro p hp htrim
    obtain ⟨n, hn, hfq⟩ := hnames p hp
    rw [hfq, trimSuffix_fqdn hn] at htrim
    exact huniq p hp (htrim ▸ hfq)
  cases fails with
  | none =>
    have hnew : ∀ f, (c.save zones now none).files.lookup name = some f → f.zone = z := by
      intro f hf
      obtain ⟨p, hp, hpn, rfl⟩ :=
        WarmCache.lookup_files_save_none ⟨_, hmem, trimSuffix_fqdn hname⟩ hf
      exact hkey p hp hpn
    refine ⟨fun n e he => ?_, fun f hf => ?_, fun e he => ?_⟩
    · obtain ⟨p, hp, rfl, -⟩ := WarmCache.lookup_index_save_none he
      obtain ⟨n, hn, hfq⟩ := hnames p hp
      rw [hfq, trimSuffix_fqdn hn]
      exact hn
    · rw [hnew f hf]
      exact ⟨v, le_rfl, hver⟩
    · obtain ⟨p, hp, hpn, rfl⟩ := WarmCache.lookup_index_save_none he
      rw [hkey p hp hpn]
      refine hserial.imp_right ?_
      rintro ⟨u, hu, hs⟩
      exact ⟨u, hu, hs, fun f hf => ⟨v, hu, le_rfl, (hnew f hf).symm ▸ hver⟩⟩
  | some n => exact h.save_cut hcur hkey hver now n

end Cache

namespace Daemon

variable {newRR : NewRR} {cfg : Config} {name : Str} {up : Upstream} {N cur : ℕ} {d : Daemon}

/-- The state of the zone matches what is published, at a version of the upstream: records that
count as fetched are those of a version no earlier than the serial, unless that is older than
all. -/
structure Matched (newRR : NewRR) (cfg : Config) (name : Str) (up : Upstream) (N cur : ℕ)
    (d : Daemon) : Prop where
  same : d.cfg = cfg
  last : ∀ snap, d.last = some snap → d.published.head? = some snap
  cache : Kept newRR cfg name up cur d.cache
  state : ∀ st, d.states.lookup name = some st → st.fetched = true → ∃ v ≤ cur,
    Holds newRR cfg name up d v ∧
      ((∃ u ≤ v, st.last = up.serial u) ∨
        st.last = 0 ∧ ∀ w ≤ N, serialLt 0 (up.serial w) = true)

/-- The zone that a refresh publishes: in the version that is listed, with the serial that was
observed or none. -/
theorem finish_zone {observed : Map Str UInt32} {s : Surroundings} {snap : Snapshot}
    {revZones : List Str} {v : ℕ} (hmem : name ∈ zoneNames cfg)
    (hdots : ∀ n ∈ zoneNames cfg, Undotted n) (hlist : Lists name up s v)
    (hserial : ∀ t, observed.lookup name = some t → ∃ u ≤ v, t = up.serial u)
    (hb : buildSnapshot newRR s.tr cfg s.lister revZones s.ordZones s.ordStub = .ok snap) :
    ∃ z, (s.finish observed snap).zones.lookup (fqdn name) = some (some z) ∧
      IsVersion newRR cfg name up z v ∧
      (z.lastFetchedSerial = 0 ∨ ∃ u ≤ v, z.lastFetchedSerial = up.serial u) := by
  obtain ⟨id, hz⟩ := lookup_buildSnapshot hlist hmem hdots hb
  refine ⟨_, ?_, ⟨id, s.tr, content_stamp observed (fqdn name) _⟩, ?_⟩
  · rw [Surroundings.finish, stampAll, Map.lookup_mapValues, hz]
    rfl
  · rw [stamp_lastFetchedSerial, trimSuffix_fqdn (hdots name hmem), buildZone_lastFetchedSerial]
    rcases ho : observed.lookup name with _ | t
    · exact Or.inl rfl
    · exact Or.inr (hserial t ho)

theorem Matched.refresh (h : Matched newRR cfg name up N cur d) {observed : Map Str UInt32}
    {s : Surroundings} {d' : Daemon} {v : ℕ} (hcur : cur ≤ v) (hmem : name ∈ zoneNames cfg)
    (hdots : ∀ n ∈ zoneNames cfg, Undotted n) (hlist : Lists name up s v)
    (hserial : ∀ t, observed.lookup name = some t → ∃ u ≤ v, t = up.serial u)
    (hr : d.refresh newRR observed s = .ok d') :
    Holds newRR cfg name up d' v ∧ Matched newRR cfg name up N v d' := by
  obtain ⟨snap, hb, rfl⟩ := refresh_eq_ok hr
  rw [h.same] at hb
  obtain ⟨z, hz, hver, hlast⟩ := finish_zone hmem hdots hlist hserial hb
  have hholds : Holds newRR cfg name up { d.publish (s.finish observed snap) with
      cache := d.cache.save (inOrder s.ordSave (s.finish observed snap).zones) s.now
        s.saveFails } v := ⟨_, z, rfl, hz, hver⟩
  refine ⟨hholds, h.same, fun _ hsnap => hsnap, ?_, ?_⟩
  · refine h.cache.save hcur (hdots name hmem) (mem_inOrder.mpr hz) ?_ ?_ hver hlast s.now
      s.saveFails
    · intro p hp
      have hconf := (configured_buildSnapshot hb).finish s observed p.1
        (Map.mem_of_lookup (mem_inOrder.mp hp))
      obtain ⟨n, hn, hfq⟩ := List.mem_map.mp hconf
      exact ⟨n, hdots n hn, hfq.symm⟩
    · intro p hp hfq
      have hlookup := mem_inOrder.mp hp
      rw [hfq, hz] at hlookup
      cases hlookup
      rfl
  · intro st hst hf
    obtain ⟨w, hw, -, hlast⟩ := h.state st hst hf
    refine ⟨v, le_rfl, hholds, hlast.imp_left ?_⟩
    rintro ⟨u, hu, hs⟩
    exact ⟨u, hu.trans (hw.trans hcur), hs⟩

theorem Matched.mono (h : Matched newRR cfg name up N cur d) {cur' : ℕ} (hle : cur ≤ cur') :
    Matched newRR cfg name up N cur' d := by
  refine ⟨h.same, h.last, h.cache.mono hle, fun st hst hf => ?_⟩
  obtain ⟨v, hv, hholds⟩ := h.state st hst hf
  exact ⟨v, hv.trans hle, hholds⟩

theorem observed_mem_polled {p : Poll} {s : UInt32} (h : (p.observed cfg).lookup name = some s) :
    (name, s) ∈ p.polled cfg := by
  rcases Map.lookup_foldl_insert h with ⟨⟨n, t⟩, hp, rfl, rfl⟩ | h
  · exact hp
  · cases h

theorem Matched.cycle (h : Matched newRR cfg name up N cur d) {p : Poll} {v : ℕ} (hcur : cur ≤ v)
    (hmem : name ∈ zoneNames cfg) (hdots : ∀ n ∈ zoneNames cfg, Undotted n)
    (hlist : Lists name up p.surroundings v)
    (hseen : ∀ s, (name, s) ∈ p.polled cfg → ∃ u ≤ v, s = up.serial u) :
    Matched newRR cfg name up N v (d.cycle newRR p).1 ∧
      (Holds newRR cfg name up (d.cycle newRR p).1 v ∨
        (d.cycle newRR p).1 = d ∧ ((d.cycle newRR p).2 = true → d.needs p = false)) := by
  rcases @cycle_cases newRR d p with ⟨d', hr, heq⟩ | ⟨heq, hdue⟩
  · rw [h.same] at hr heq
    obtain ⟨hholds, hd'⟩ := h.refresh hcur hmem hdots hlist
      (fun t ht => hseen t (observed_mem_polled ht)) hr
    rw [heq]
    refine ⟨⟨hd'.same, hd'.last, hd'.cache, ?_⟩, Or.inl hholds⟩
    intro st hst hf
    rcases Map.lookup_foldl_insert hst with ⟨⟨n, t⟩, hp, rfl, rfl⟩ | hold
    · obtain ⟨u, hu, hs⟩ :=
        hseen t (observed_mem_polled (Map.lookup_eq_some_iff_mem_entries.mpr hp))
      exact ⟨v, le_rfl, hholds, Or.inl ⟨u, hu, hs⟩⟩
    · exact hd'.state st hold hf
  · rw [heq]
    refine ⟨h.mono hcur, Or.inr ⟨rfl, fun hok => ?_⟩⟩
    have hdue := hdue hok
    unfold due at hdue
    simp only [Bool.or_eq_false_iff] at hdue
    exact hdue.1.1

theorem Matched.current (h : Matched newRR cfg name up N cur d) {p : Poll} {s : UInt32} {v : ℕ}
    (hcur : cur ≤ v) (hv : v ≤ N)
    (hadvance : ∀ m n, m < n → n ≤ N → serialLt (up.serial m) (up.serial n) = true)
    (hneeds : d.needs p = false) (hs : (name, s) ∈ p.polled cfg) (hserial : s = up.serial v) :
    Holds newRR cfg name up d v := by
  have hno := List.any_eq_false.mp hneeds (name, s) (h.same ▸ hs)
  rcases hst : d.states.lookup name with _ | st
  · rw [hst] at hno
    exact absurd rfl hno
  · rw [hst, Option.getD_some, SerialState.shouldFetch] at hno
    split_ifs at hno with hf
    · exact absurd rfl hno
    · obtain ⟨w, hw, hholds, hlast⟩ := h.state st hst (by simpa using hf)
      rcases (hw.trans hcur).eq_or_lt with rfl | hlt
      · exact hholds
      · rw [hserial] at hno
        rcases hlast with ⟨u, hu, hlast⟩ | ⟨hzero, hlow⟩
        · rw [hlast] at hno
          exact absurd (hadvance u v (hu.trans_lt hlt) hv) hno
        · rw [hzero] at hno
          exact absurd (hlow v hv) hno

theorem Matched.restart (h : Matched newRR cfg name up N cur d) {s : Start} (hcfg : s.cfg = cfg)
    (hname : Undotted name) (hseed : Seeded name up N d.cache) :
    Matched newRR cfg name up N cur (d.restart s) := by
  have hcache : (d.restart s).cache = d.cache := by
    unfold Daemon.restart
    dsimp only
    split_ifs <;> rfl
  have hstates : (d.restart s).states = d.cache.loadStates s.ordIndex := by
    unfold Daemon.restart
    dsimp only
    split_ifs <;> rfl
  have hlast : ∀ snap, (d.restart s).last = some snap →
      (d.restart s).published.head? = some snap := by
    unfold Daemon.restart
    dsimp only
    split_ifs
    · intro snap hsnap
      cases hsnap
    · exact fun snap hsnap => hsnap
  refine ⟨(restart_cfg s).trans hcfg, hlast, hcache.symm ▸ h.cache, fun st hst hf => ?_⟩
  rw [hstates, WarmCache.lookup_loadStates] at hst
  obtain ⟨e, he, rfl⟩ := Option.map_eq_some_iff.mp hst
  obtain ⟨hrec, hfile⟩ := Bool.and_eq_true_iff.mp hf
  obtain ⟨f, hfile⟩ := Option.isSome_iff_exists.mp hfile
  have hloaded : (d.cache.loadZones s.now s.ordIndex).lookup (fqdn name) =
      some (some (f.load s.now)) := by
    refine WarmCache.lookup_loadZones_of_file (WarmCache.file_eq_some_iff.mpr ⟨⟨e, he⟩, hfile⟩) ?_
    intro n f' hf' hfq
    obtain ⟨⟨e', he'⟩, -⟩ := WarmCache.file_eq_some_iff.mp hf'
    exact fqdn_inj (h.cache.undotted n e' he') hname hfq
  have hholds : ∀ v, IsVersion newRR cfg name up f.zone v →
      Holds newRR cfg name up (d.restart s) v := by
    intro v hver
    unfold Daemon.restart
    dsimp only
    rw [if_neg]
    · exact ⟨_, f.load s.now, rfl, hloaded, hver⟩
    · intro hempty
      rw [Map.entries_eq_nil_iff.mp (List.isEmpty_iff.mp hempty)] at hloaded
      cases hloaded
  rcases h.cache.entry e he with hzero | ⟨u, -, hserial, hfiles⟩
  · obtain ⟨v, hv, hver⟩ := h.cache.file f hfile
    exact ⟨v, hv, hholds v hver, Or.inr ⟨hzero, hseed e he hrec hzero⟩⟩
  · obtain ⟨v, huv, hv, hver⟩ := hfiles f hfile
    exact ⟨v, hv, hholds v hver, Or.inl ⟨u, huv, hserial⟩⟩

theorem Matched.republish (h : Matched newRR cfg name up N cur d) (vhosts : Finset Str)
    (ddr : Option DDRAdvert) : Matched newRR cfg name up N cur (d.republish vhosts ddr) := by
  rcases hl : d.last with _ | last
  · rw [Daemon.republish, hl]
    exact h
  · rw [Daemon.republish, hl]
    refine ⟨h.same, fun _ hsnap => hsnap, h.cache, fun st hst hf => ?_⟩
    obtain ⟨v, hv, ⟨snap, z, hhead, hz, hver⟩, hserial⟩ := h.state st hst hf
    rw [h.last last hl] at hhead
    cases hhead
    exact ⟨v, hv, ⟨_, z, rfl, hz, hver⟩, hserial⟩

theorem Matched.step (h : Matched newRR cfg name up N cur d) (x : Staged) (hcur : cur ≤ x.start)
    (hmem : name ∈ zoneNames cfg) (hdots : ∀ n ∈ zoneNames cfg, Undotted n)
    (htruth : Truthful cfg name up x.start x.stop x.occurrence)
    (hseed : ∀ s, x.occurrence = .restart s → Seeded name up N d.cache) :
    Matched newRR cfg name up N x.stop (d.step newRR x.occurrence) := by
  obtain ⟨e, start, stop, hle⟩ := x
  have hstop := hcur.trans hle
  cases e with
  | cycle p =>
    obtain ⟨v, hsv, hvs, hlist, hseen⟩ := htruth
    refine (h.cycle (hcur.trans hsv) hmem hdots hlist fun s hs => ?_).1.mono hvs
    obtain ⟨u, -, hu, hserial⟩ := hseen s hs
    exact ⟨u, hu, hserial⟩
  | buildOnce s =>
    obtain ⟨v, hsv, hvs, hlist⟩ := htruth
    change Matched newRR cfg name up N stop (d.buildOnce newRR s)
    rcases hr : d.refresh newRR ∅ s with err | d'
    · rw [buildOnce, hr]
      exact h.mono hstop
    · rw [buildOnce, hr]
      refine (h.refresh (hcur.trans hsv) hmem hdots hlist (fun t ht => ?_) hr).2.mono hvs
      cases ht
  | republish vhosts ddr => exact (h.republish vhosts ddr).mono hstop
  | lose index names =>
    exact (⟨h.same, h.last, h.cache.lose index names, h.state⟩ :
      Matched newRR cfg name up N cur { d with cache := d.cache.lose index names }).mono hstop
  | restart s => exact (h.restart htruth (hdots name hmem) (hseed s rfl)).mono hstop

/-- The mirror after an occurrence, whatever the upstream does. -/
def stage (newRR : NewRR) (d : Daemon) (x : Staged) : Daemon := d.step newRR x.occurrence

/-- A cycle that confirms the mirror, has the serial of the zone and sees no change of the upstream
leaves the current version of the zone published. -/
theorem confirmed_current (newRR : NewRR) (cfg : Config) (name : Str) (up : Upstream) (N : ℕ)
    (run : List Staged) (hdots : ∀ n ∈ zoneNames cfg, Undotted n)
    (hadvance : ∀ m n, m < n → n ≤ N → serialLt (up.serial m) (up.serial n) = true)
    (hbound : ∀ x ∈ run, x.stop ≤ N) (horder : run.Pairwise fun x y => x.stop ≤ y.start)
    (htruth : ∀ x ∈ run, Truthful cfg name up x.start x.stop x.occurrence)
    (hseed : Runs.Always (stage newRR) { cfg }
      (fun _ d x => ∀ s, x.occurrence = .restart s → Seeded name up N d.cache) run) :
    Runs.Always (stage newRR) { cfg } (fun _ d x =>
      ∀ p, x.occurrence = .cycle p → (d.cycle newRR p).2 = true →
        (∃ s, (name, s) ∈ p.polled cfg) → x.start = x.stop →
          Holds newRR cfg name up (d.cycle newRR p).1 x.stop) run := by
  by_cases hmem : name ∈ zoneNames cfg
  · have hpair := @Runs.always_of_pairwise _ _ (stage newRR) { cfg } _ run horder
    have htold : Runs.Always (stage newRR) { cfg } (fun _ _ x =>
        x.stop ≤ N ∧ Truthful cfg name up x.start x.stop x.occurrence) run := by
      rintro pre x post rfl
      exact ⟨hbound x (by simp), htruth x (by simp)⟩
    refine @Runs.always_of_inv _ _ _ _
      (fun past d => ∃ cur, (∀ n, (∀ q ∈ past, q.2.stop ≤ n) → cur ≤ n) ∧
        Matched newRR cfg name up N cur d) _ _ ⟨0, fun n _ => Nat.zero_le n, ?_⟩ ?_ ?_ _
      ((hpair.and htold).and hseed)
    · refine ⟨rfl, fun _ h => ?_, ⟨fun _ _ h => ?_, fun _ h => ?_, fun _ h => ?_⟩,
        fun _ h => ?_⟩ <;> cases h
    · rintro past d x ⟨cur, hcur, h⟩ ⟨⟨hpast, -, ht⟩, hs⟩
      refine ⟨x.stop, fun n hn => ?_, h.step x (hcur _ hpast) hmem hdots ht hs⟩
      exact hn (d, x) (List.mem_append_right _ List.mem_cons_self)
    · rintro past d ⟨e, start, stop, hle⟩ ⟨cur, hcur, h⟩ ⟨⟨hpast, hN, ht⟩, -⟩ p hp hok ⟨s, hs⟩ hsame
      obtain rfl : e = .cycle p := hp
      obtain rfl : start = stop := hsame
      obtain ⟨v, hsv, hvs, hlist, hseen⟩ := ht
      obtain rfl : start = v := le_antisymm hsv hvs
      have hstart := hcur start hpast
      obtain ⟨-, hholds | ⟨hsame, hneeds⟩⟩ := h.cycle hstart hmem hdots hlist fun s hs => by
        obtain ⟨u, -, hu, hserial⟩ := hseen s hs
        exact ⟨u, hu, hserial⟩
      · exact hholds
      · obtain ⟨u, hsu, hus, hserial⟩ := hseen s hs
        obtain rfl : start = u := le_antisymm hsu hus
        rw [hsame]
        exact h.current hstart hN hadvance (hneeds hok) hs hserial
  · rintro pre x post - p - - ⟨s, hs⟩
    obtain ⟨q, hq, hsome⟩ := List.mem_filterMap.mp hs
    obtain ⟨t, -, heq⟩ := Option.map_eq_some_iff.mp hsome
    cases heq
    exact absurd (List.of_mem_zip hq).1 hmem

/-- A zone whose only record is withdrawn in its second version. -/
def withdrawing : Upstream where
  serial v := 2400000000 + UInt32.ofNat v
  records v :=
    if v = 0 then
      [{ type := "A".toList, name := "b.test".toList, content := "192.0.2.1".toList }]
    else []

def mirrored : Config := { zones := { localZones := ["a.test".toList, "b.test".toList] } }

/-- A cycle at a version of the zone, with the results of the two queries. -/
def pollAt (v : ℕ) (a b : Option UInt32) : Poll where
  serials := [a, b]
  now := 0
  done := 0
  surroundings :=
    { lister := some
        { zones := .ok (Map.ofList [("1".toList, "a.test".toList), ("2".toList, "b.test".toList)])
          allRecords := fun id => .ok (if id = "2".toList then withdrawing.records v else []) }
      tr := fun _ => .error []
      now := 0 }

theorem truthful_pollAt (v : ℕ) (a b : Option UInt32)
    (hb : ∀ s, b = some s → s = withdrawing.serial v) :
    Truthful mirrored "b.test".toList withdrawing v v (.cycle (pollAt v a b)) := by
  refine ⟨v, le_rfl, le_rfl, ⟨_, rfl, ?_⟩, ?_⟩
  · rintro zones ⟨⟩
    refine ⟨"2".toList, ?_, fun recs hrecs => by cases hrecs; rfl⟩
    change (nameToID _ default).lookup _ = _
    decide
  · intro s hs
    have hnames : zoneNames mirrored = ["a.test".toList, "b.test".toList] := by decide
    rw [Poll.polled, hnames] at hs
    obtain ⟨q, hq, hsome⟩ := List.mem_filterMap.mp hs
    obtain ⟨t, ht, heq⟩ := Option.map_eq_some_iff.mp hsome
    obtain ⟨hname, rfl⟩ := Prod.mk.inj heq
    refine ⟨v, le_rfl, le_rfl, hb t ?_⟩
    rcases List.mem_cons.mp hq with rfl | hq
    · have hname : "a.test".toList = "b.test".toList := hname
      exact absurd hname (by decide)
    · rw [List.mem_singleton.mp hq] at ht
      exact ht

/-- A process that gets both serials, and its restart. -/
def answered : List Staged :=
  [⟨.cycle (pollAt 0 (some 7) (some 2400000000)), 0, 0, le_rfl⟩,
    ⟨.restart { cfg := mirrored, now := 0 }, 0, 0, le_rfl⟩]

/-- The withdrawal is published by the next cycle that is confirmed. -/
theorem confirmed_current_withdrawn :
    Holds readLine mirrored "b.test".toList withdrawing
      ((answered.foldl (stage readLine) { cfg := mirrored }).cycle readLine
        (pollAt 1 (some 7) (some 2400000001))).1 1 := by
  have hpoll : Truthful mirrored "b.test".toList withdrawing 1 1
      (.cycle (pollAt 1 (some 7) (some 2400000001))) :=
    truthful_pollAt 1 _ _ (by rintro s ⟨⟩; decide)
  refine confirmed_current readLine mirrored "b.test".toList withdrawing 1
    (answered ++ [⟨.cycle (pollAt 1 (some 7) (some 2400000001)), 1, 1, le_rfl⟩]) ?_ ?_ ?_ ?_ ?_ ?_
    answered ⟨.cycle (pollAt 1 (some 7) (some 2400000001)), 1, 1, le_rfl⟩ [] rfl
    (pollAt 1 (some 7) (some 2400000001)) rfl (by decide +kernel) ⟨2400000001, by decide⟩ rfl
  · have hnames : zoneNames mirrored = ["a.test".toList, "b.test".toList] := by decide
    rw [hnames]
    unfold Undotted
    decide
  · intro m n hmn hn
    obtain ⟨rfl, rfl⟩ : m = 0 ∧ n = 1 := by omega
    decide
  · decide
  · decide
  · intro x hx
    simp only [answered, List.cons_append, List.nil_append, List.mem_cons, List.not_mem_nil,
      or_false] at hx
    rcases hx with rfl | rfl | rfl
    · exact truthful_pollAt 0 _ _ (by rintro s ⟨⟩; decide)
    · rfl
    · exact hpoll
  · refine Runs.always_cons.mpr ⟨fun s hs => (by cases hs), Runs.always_cons.mpr ⟨?_,
      Runs.always_cons.mpr ⟨fun s hs => (by cases hs), Runs.always_nil⟩⟩⟩
    rintro s - e he - hzero
    have hentry : (stage readLine { cfg := mirrored } ⟨.cycle (pollAt 0 (some 7) (some 2400000000)),
        0, 0, le_rfl⟩).cache.index.bind (·.lookup "b.test".toList) =
          some ⟨2400000000, true⟩ := by decide
    rw [hentry] at he
    cases he
    exact absurd hzero (by decide)

/-- Two processes that never get the serial of the second zone. -/
def unanswered : List Staged :=
  [⟨.cycle (pollAt 0 (some 7) none), 0, 0, le_rfl⟩,
    ⟨.restart { cfg := mirrored, now := 0 }, 0, 0, le_rfl⟩,
    ⟨.cycle (pollAt 0 (some 7) none), 0, 0, le_rfl⟩]

/-- A cycle confirms the mirror although the zone that it observes has changed: the restart took the
serial that was never polled for one that is later than all. -/
theorem withdrawn_record_confirmed :
    (∀ x ∈ unanswered, Truthful mirrored "b.test".toList withdrawing x.start x.stop x.occurrence) ∧
    Truthful mirrored "b.test".toList withdrawing 1 1
      (.cycle (pollAt 1 (some 7) (some 2400000001))) ∧
    ("b.test".toList, 2400000001) ∈ (pollAt 1 (some 7) (some 2400000001)).polled mirrored ∧
    ((unanswered.foldl (stage readLine) { cfg := mirrored }).cycle readLine
      (pollAt 1 (some 7) (some 2400000001))).2 = true ∧
    ¬ Holds readLine mirrored "b.test".toList withdrawing
      ((unanswered.foldl (stage readLine) { cfg := mirrored }).cycle readLine
        (pollAt 1 (some 7) (some 2400000001))).1 1 := by
  refine ⟨?_, truthful_pollAt 1 _ _ ?_, by decide, by decide, ?_⟩
  · intro x hx
    simp only [unanswered, List.mem_cons, List.not_mem_nil, or_false] at hx
    rcases hx with rfl | rfl | rfl
    · exact truthful_pollAt 0 _ _ (by rintro s ⟨⟩)
    · rfl
    · exact truthful_pollAt 0 _ _ (by rintro s ⟨⟩)
  · rintro s ⟨⟩
    decide
  · rintro ⟨snap, z, hhead, hz, id, tr, hcontent⟩
    have hserved : (((unanswered.foldl (stage readLine) { cfg := mirrored }).cycle readLine
        (pollAt 1 (some 7) (some 2400000001))).1.published.head?.bind fun snap =>
          (snap.zones.lookup "b.test.".toList).join.map fun z => z.records.keys) = some [[]] := by
      decide
    have hrecords : z.records.keys = [] := congrArg (fun z : Zone => z.records.keys) hcontent
    have hfq : fqdn "b.test".toList = "b.test.".toList := by decide
    rw [hfq] at hz
    rw [hhead, Option.bind_some, hz, Option.join_some, Option.map_some, hrecords] at hserved
    cases hserved

end Daemon

end SplitDNS.Mirror
