import SplitDNS.Dns.Message
import SplitDNS.Model.Snapshot

/-! # The warm cache

Every refresh saves its zones, each with the serial that was polled for it, to
files of their own and then to an index of them. A restart serves what it can
load and seeds the serial states of the poller with the index. A zone file that
cannot be read makes the poller fetch its zone again.
-/

namespace SplitDNS.Mirror

open Go Go.Strings Dns Model

/-- Whether a serial is older than another in sequence space. -/
def serialLt (a b : UInt32) : Bool := a ≠ b && b - a < 0x80000000

/-- The serial that the records of a zone were last fetched at, if they ever were. -/
structure SerialState where
  last : UInt32 := 0
  fetched : Bool := false
  deriving DecidableEq, Repr

def SerialState.shouldFetch (s : SerialState) (observed : UInt32) : Bool :=
  if !s.fetched then true else serialLt s.last observed

structure ZoneFile where
  fetchedAt : Time
  serial : UInt32
  zone : Zone

structure IndexEntry where
  serial : UInt32
  hasRecords : Bool
  deriving DecidableEq, Repr

/-- What can be read of the cache directory: the index, and the zone files by name. -/
structure WarmCache where
  index : Option (Map Str IndexEntry) := none
  files : Map Str ZoneFile := ∅

def zoneHasRecords (z : Zone) : Bool :=
  !z.records.entries.isEmpty || !z.wildcards.entries.isEmpty || !z.tunnelAddr.entries.isEmpty

/-- The age at which the addresses of tunnels count as stale. -/
def synthCeiling : Duration := hour

def ZoneFile.load (f : ZoneFile) (now : Time) : Zone :=
  { f.zone with
    stale := true
    syntheticStale := f.zone.syntheticStale ||
      (!f.zone.tunnelAddr.entries.isEmpty && synthCeiling < now - f.fetchedAt) }

namespace WarmCache

/-- `Cache.Save`, for the order of its loop. It may fail after some number of zone files. -/
def save (c : WarmCache) (zones : List (Str × Zone)) (now : Time) (fails : Option ℕ) :
    WarmCache where
  files := (fails.elim zones zones.take).foldl
    (fun m p => m.insert (trimSuffix p.1 ['.']) ⟨now, p.2.lastFetchedSerial, p.2⟩) c.files
  index :=
    if fails.isSome then c.index
    else some (zones.foldl (fun m p => m.insert (trimSuffix p.1 ['.'])
      ⟨p.2.lastFetchedSerial, zoneHasRecords p.2⟩) ∅)

/-- The index in the order of a loop over it, nothing if it cannot be read. -/
def listing (c : WarmCache) (ord : RangeOrder Str IndexEntry) :
    List (Sigma fun _ : Str => IndexEntry) :=
  c.index.elim [] ord.visit

/-- The zones that `Cache.Load` returns. -/
def loadZones (c : WarmCache) (now : Time) (ord : RangeOrder Str IndexEntry) :
    Map Str (Option Zone) :=
  ((c.listing ord).filterMap fun p => (c.files.lookup p.1).map (p.1, ·)).foldl
    (fun m p => m.insert (fqdn p.1) (some (p.2.load now))) ∅

/-- The serial state of an index entry: without its zone file it counts as never fetched. -/
def seed (c : WarmCache) (name : Str) (e : IndexEntry) : SerialState :=
  ⟨e.serial, e.hasRecords && (c.files.lookup name).isSome⟩

/-- The serial states that `Cache.Load` returns. -/
def loadStates (c : WarmCache) (ord : RangeOrder Str IndexEntry) : Map Str SerialState :=
  (c.listing ord).foldl (fun m p => m.insert p.1 (c.seed p.1 p.2)) ∅

def lose (c : WarmCache) (index : Bool) (names : List Str) : WarmCache where
  index := if index then none else c.index
  files := names.foldl (fun m name => m.erase name) c.files

def file (c : WarmCache) (name : Str) : Option ZoneFile :=
  if c.index.any (name ∈ ·) then c.files.lookup name else none

variable {c : WarmCache} {now : Time} {ord : RangeOrder Str IndexEntry} {name apex : Str}

section Save

variable {zones : List (Str × Zone)} {fails : Option ℕ} {f : ZoneFile}

theorem lookup_files_save (h : (c.save zones now fails).files.lookup name = some f) :
    (∃ p ∈ fails.elim zones zones.take, trimSuffix p.1 ['.'] = name ∧
      f = ⟨now, p.2.lastFetchedSerial, p.2⟩) ∨ c.files.lookup name = some f := by
  rcases Map.lookup_foldl_insert h with ⟨p, hp, hname, rfl⟩ | hold
  · exact Or.inl ⟨p, hp, hname, rfl⟩
  · exact Or.inr hold

theorem lookup_files_save_none (hname : ∃ p ∈ zones, trimSuffix p.1 ['.'] = name)
    (h : (c.save zones now none).files.lookup name = some f) :
    ∃ p ∈ zones, trimSuffix p.1 ['.'] = name ∧ f = ⟨now, p.2.lastFetchedSerial, p.2⟩ := by
  obtain ⟨p, hp, hpname, hlookup⟩ :=
    @Map.exists_lookup_foldl_insert Str ZoneFile (Str × Zone) _ zones
      (fun p => trimSuffix p.1 ['.']) (fun p => ⟨now, p.2.lastFetchedSerial, p.2⟩) name hname
      c.files
  have hfp := h.symm.trans hlookup
  exact ⟨p, hp, hpname, Option.some.inj hfp⟩

theorem lookup_index_save_none {e : IndexEntry}
    (h : (c.save zones now none).index.bind (·.lookup name) = some e) :
    ∃ p ∈ zones, trimSuffix p.1 ['.'] = name ∧
      e = ⟨p.2.lastFetchedSerial, zoneHasRecords p.2⟩ := by
  rcases Map.lookup_foldl_insert h with ⟨p, hp, hname, rfl⟩ | hold
  · exact ⟨p, hp, hname, rfl⟩
  · cases hold

theorem lookup_files_lose {index : Bool} {names : List Str}
    (h : (c.lose index names).files.lookup name = some f) : c.files.lookup name = some f := by
  rw [lose, Map.lookup_foldl_erase] at h
  split_ifs at h
  exact h

theorem index_lose {index : Bool} {names : List Str} {idx : Map Str IndexEntry}
    (h : (c.lose index names).index = some idx) : c.index = some idx := by
  cases index with
  | true => cases h
  | false => exact h

end Save

theorem mem_listing {e : IndexEntry} :
    ⟨name, e⟩ ∈ c.listing ord ↔ c.index.bind (·.lookup name) = some e := by
  unfold listing
  rcases c.index with _ | idx
  · simp
  · exact (ord.perm idx).mem_iff.trans Map.lookup_eq_some_iff_mem_entries.symm

theorem file_eq_some_iff {f : ZoneFile} :
    c.file name = some f ↔
      (∃ e, c.index.bind (·.lookup name) = some e) ∧ c.files.lookup name = some f := by
  unfold file
  rcases c.index with _ | idx
  · simp
  · simp only [Option.any_some, Option.bind_some, ← Option.isSome_iff_exists,
      AList.lookup_isSome, decide_eq_true_eq]
    split_ifs with hmem
    · simp [hmem]
    · simp [hmem]

theorem lookup_loadZones {oz : Option Zone} (h : (c.loadZones now ord).lookup apex = some oz) :
    ∃ name f, c.file name = some f ∧ fqdn name = apex ∧ oz = some (f.load now) := by
  rcases Map.lookup_foldl_insert h with ⟨⟨name, f⟩, hp, rfl, rfl⟩ | h
  · obtain ⟨⟨name', e⟩, hl, hf⟩ := List.mem_filterMap.mp hp
    obtain ⟨f', hf', heq⟩ := Option.map_eq_some_iff.mp hf
    obtain ⟨rfl, rfl⟩ := Prod.mk.inj heq
    exact ⟨name', f', file_eq_some_iff.mpr ⟨⟨e, mem_listing.mp hl⟩, hf'⟩, rfl, rfl⟩
  · cases h

theorem mem_loadZones :
    apex ∈ c.loadZones now ord ↔ ∃ name f, c.file name = some f ∧ fqdn name = apex := by
  constructor
  · intro h
    obtain ⟨oz, hoz⟩ := Option.isSome_iff_exists.mp (AList.lookup_isSome.mpr h)
    obtain ⟨name, f, hf, hname, -⟩ := lookup_loadZones hoz
    exact ⟨name, f, hf, hname⟩
  · rintro ⟨name, f, hf, rfl⟩
    obtain ⟨⟨e, he⟩, hf⟩ := file_eq_some_iff.mp hf
    refine Map.mem_foldl_insert.mpr (Or.inl ⟨(name, f), ?_, rfl⟩)
    exact List.mem_filterMap.mpr ⟨⟨name, e⟩, mem_listing.mpr he, by rw [hf]; rfl⟩

theorem lookup_loadZones_of_file {f : ZoneFile} (hf : c.file name = some f)
    (huniq : ∀ name' f', c.file name' = some f' → fqdn name' = fqdn name → name' = name) :
    (c.loadZones now ord).lookup (fqdn name) = some (some (f.load now)) := by
  obtain ⟨oz, hoz⟩ := Option.isSome_iff_exists.mp
    (AList.lookup_isSome.mpr (mem_loadZones.mpr ⟨name, f, hf, rfl⟩) :
      ((c.loadZones now ord).lookup (fqdn name)).isSome = true)
  obtain ⟨name', f', hf', hname, rfl⟩ := lookup_loadZones hoz
  obtain rfl := huniq name' f' hf' hname
  rw [hf] at hf'
  cases hf'
  exact hoz

theorem lookup_loadStates (name : Str) :
    (c.loadStates ord).lookup name = (c.index.bind (·.lookup name)).map (c.seed name) := by
  rcases he : c.index.bind (·.lookup name) with _ | e
  · refine Map.lookup_foldl_insert_of_not_mem ?_
    rintro ⟨name', e⟩ hp rfl
    rw [mem_listing.mp hp] at he
    cases he
  · have hmem : (⟨name, e⟩ : Sigma fun _ : Str => IndexEntry) ∈ c.listing ord := mem_listing.mpr he
    refine @Map.lookup_foldl_insert_of_mem _ _ _ _ _ Sigma.fst
      (fun p : Sigma fun _ : Str => IndexEntry => c.seed p.1 p.2) ∅ ⟨name, e⟩ hmem ?_
    rintro ⟨name', e'⟩ hp rfl
    rw [mem_listing.mp hp] at he
    cases he
    rfl

end WarmCache

end SplitDNS.Mirror
