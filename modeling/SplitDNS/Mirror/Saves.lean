import SplitDNS.Mirror.WarmCache
import SplitDNS.Runs.Basic

/-! # Interrupted saves

A save replaces the zone files one by one and then the index, and may be cut off
after any of them. The index names only zones whose files were written by the same
save or a later one, so whatever files are lost, a load never takes a serial for
newer than the records it was saved with.
-/

namespace SplitDNS.Mirror

open Go Go.Strings Dns Model

/-- One save: the zones in the order of its loop, and the number of zone files that it has replaced
when it is cut off. -/
structure SaveCall where
  zones : List (Str × Zone)
  now : Time
  cut : Option ℕ := none

inductive CacheEvent where
  | save (call : SaveCall)
  | lose (index : Bool) (names : List Str)

def WarmCache.step (c : WarmCache) : CacheEvent → WarmCache
  | .save call => c.save call.zones call.now call.cut
  | .lose index names => c.lose index names

def SaveCall.written (call : SaveCall) : List (Str × Zone) :=
  call.cut.elim call.zones call.zones.take

/-- The file is what a save wrote for a zone of the name. -/
def SaveCall.Wrote (call : SaveCall) (name : Str) (f : ZoneFile) : Prop :=
  ∃ p ∈ call.written, trimSuffix p.1 ['.'] = name ∧ f = ⟨call.now, p.2.lastFetchedSerial, p.2⟩

/-- The entry is what a complete save put in the index for a zone of the name. -/
def SaveCall.Indexed (call : SaveCall) (name : Str) (e : IndexEntry) : Prop :=
  call.cut = none ∧ ∃ p ∈ call.zones, trimSuffix p.1 ['.'] = name ∧
    e = ⟨p.2.lastFetchedSerial, zoneHasRecords p.2⟩

/-- The save at a position of the past, with a property. -/
def SavedAt (past : List CacheEvent) (i : ℕ) (P : SaveCall → Prop) : Prop :=
  ∃ call, past[i]? = some (.save call) ∧ P call

theorem SavedAt.concat {past : List CacheEvent} {i : ℕ} {P : SaveCall → Prop}
    (h : SavedAt past i P) (e : CacheEvent) : SavedAt (past ++ [e]) i P := by
  obtain ⟨call, hcall, hP⟩ := h
  have hlt : i < past.length := (List.getElem?_eq_some_iff.mp hcall).1
  exact ⟨call, by rw [List.getElem?_append_left hlt, hcall], hP⟩

theorem savedAt_last (past : List CacheEvent) {call : SaveCall} {P : SaveCall → Prop} (h : P call) :
    SavedAt (past ++ [.save call]) past.length P :=
  ⟨call, by simp, h⟩

/-- Where the files come from: every zone file is of one save, and the index is of one that comes
no later than those of the files it names. -/
structure Saved (past : List CacheEvent) (c : WarmCache) : Prop where
  files : ∀ name f, c.files.lookup name = some f →
    ∃ i, SavedAt past i fun call => call.Wrote name f
  index : ∀ idx, c.index = some idx → ∃ j,
    (∀ name e, idx.lookup name = some e → SavedAt past j fun call => call.Indexed name e) ∧
    ∀ name ∈ idx, ∀ f, c.files.lookup name = some f →
      ∃ i, j ≤ i ∧ SavedAt past i fun call => call.Wrote name f

variable {past : List CacheEvent} {c : WarmCache}

theorem Saved.lose (h : Saved past c) (index : Bool) (names : List Str) :
    Saved (past ++ [.lose index names]) (c.lose index names) := by
  constructor
  · intro name f hf
    obtain ⟨i, hs⟩ := h.files name f (WarmCache.lookup_files_lose hf)
    exact ⟨i, hs.concat _⟩
  · intro idx hidx
    obtain ⟨j, hentries, hfiles⟩ := h.index idx (WarmCache.index_lose hidx)
    refine ⟨j, fun name e he => (hentries name e he).concat _, fun name hmem f hf => ?_⟩
    obtain ⟨i, hji, hs⟩ := hfiles name hmem f (WarmCache.lookup_files_lose hf)
    exact ⟨i, hji, hs.concat _⟩

theorem Saved.save_complete (c : WarmCache) (past : List CacheEvent) {call : SaveCall}
    (hcut : call.cut = none) {idx : Map Str IndexEntry}
    (hidx : (c.save call.zones call.now call.cut).index = some idx) :
    (∀ name e, idx.lookup name = some e →
      SavedAt (past ++ [.save call]) past.length fun call => call.Indexed name e) ∧
    ∀ name ∈ idx, ∀ f, (c.save call.zones call.now call.cut).files.lookup name = some f →
      SavedAt (past ++ [.save call]) past.length fun call => call.Wrote name f := by
  have hindexed : ∀ name e, idx.lookup name = some e → call.Indexed name e := by
    intro name e he
    rw [hcut] at hidx
    exact ⟨hcut, WarmCache.lookup_index_save_none (Option.bind_eq_some_iff.mpr ⟨idx, hidx, he⟩)⟩
  refine ⟨fun name e he => savedAt_last past (hindexed name e he), fun name hmem f hf => ?_⟩
  obtain ⟨e, he⟩ := Option.isSome_iff_exists.mp (AList.lookup_isSome.mpr hmem)
  obtain ⟨-, p, hp, hname, -⟩ := hindexed name e he
  have hwritten : call.written = call.zones := by
    rw [SaveCall.written, hcut]
    rfl
  rw [hcut] at hf
  obtain ⟨q, hq, hqname⟩ := WarmCache.lookup_files_save_none ⟨p, hp, hname⟩ hf
  exact savedAt_last past ⟨q, hwritten.symm ▸ hq, hqname⟩

theorem Saved.save (h : Saved past c) (call : SaveCall) :
    Saved (past ++ [.save call]) (c.save call.zones call.now call.cut) := by
  constructor
  · intro name f hf
    rcases WarmCache.lookup_files_save hf with hw | hold
    · exact ⟨past.length, savedAt_last past hw⟩
    · obtain ⟨i, hs⟩ := h.files name f hold
      exact ⟨i, hs.concat _⟩
  · intro idx hidx
    by_cases hcut : call.cut = none
    · obtain ⟨hentries, hfiles⟩ := Saved.save_complete c past hcut hidx
      exact ⟨past.length, hentries, fun name hmem f hf =>
        ⟨past.length, le_rfl, hfiles name hmem f hf⟩⟩
    · -- a save that was cut off leaves the index
      have hidx : c.index = some idx := by
        obtain ⟨n, hn⟩ := Option.ne_none_iff_exists'.mp hcut
        rw [WarmCache.save, hn] at hidx
        exact hidx
      obtain ⟨j, hentries, hfiles⟩ := h.index idx hidx
      refine ⟨j, fun name e he => (hentries name e he).concat _, fun name hmem f hf => ?_⟩
      rcases WarmCache.lookup_files_save hf with hw | hold
      · obtain ⟨e, he⟩ := Option.isSome_iff_exists.mp (AList.lookup_isSome.mpr hmem)
        obtain ⟨call', hcall', -⟩ := hentries name e he
        have hlt : j < past.length := (List.getElem?_eq_some_iff.mp hcall').1
        exact ⟨past.length, hlt.le, savedAt_last past hw⟩
      · obtain ⟨i, hji, hs⟩ := hfiles name hmem f hold
        exact ⟨i, hji, hs.concat _⟩

theorem run_saved (events : List CacheEvent) : Saved events (events.foldl WarmCache.step {}) := by
  refine @Runs.inv_foldl _ _ WarmCache.step {} Saved ⟨?_, ?_⟩ ?_ events
  · intro name f hf
    cases hf
  · intro idx hidx
    cases hidx
  · intro past c e h
    cases e with
    | save call => exact h.save call
    | lose index names => exact h.lose index names

/-- What is loaded after any saves, complete or cut off, and losses of files: every zone is what
one save wrote, its serial was put in the index by that save or an earlier one, and a zone of the
index without a file counts as never fetched. -/
theorem load_after_saves (events : List CacheEvent) (now : Time)
    (ord ord' : RangeOrder Str IndexEntry) :
    let c := events.foldl WarmCache.step {}
    (∀ apex oz, (c.loadZones now ord).lookup apex = some oz →
      ∃ name f i j st, fqdn name = apex ∧ oz = some (f.load now) ∧
        (SavedAt events i fun call => call.Wrote name f) ∧
        (c.loadStates ord').lookup name = some st ∧
        (SavedAt events j fun call => ∃ e, call.Indexed name e ∧ st.last = e.serial) ∧ j ≤ i) ∧
    ∀ name st, (c.loadStates ord').lookup name = some st → c.files.lookup name = none →
      st.fetched = false := by
  intro c
  have h := run_saved events
  constructor
  · intro apex oz hoz
    obtain ⟨name, f, hf, rfl, rfl⟩ := WarmCache.lookup_loadZones hoz
    obtain ⟨⟨e, he⟩, hfile⟩ := WarmCache.file_eq_some_iff.mp hf
    obtain ⟨idx, hidx, hlookup⟩ := Option.bind_eq_some_iff.mp he
    obtain ⟨j, hentries, hfiles⟩ := h.index idx hidx
    obtain ⟨i, hji, hwrote⟩ := hfiles name (Map.mem_of_lookup hlookup) f hfile
    obtain ⟨call, hcall, hindexed⟩ := hentries name e hlookup
    refine ⟨name, f, i, j, c.seed name e, rfl, rfl, hwrote, ?_, ⟨call, hcall, e, hindexed, rfl⟩,
      hji⟩
    rw [WarmCache.lookup_loadStates, he]
    rfl
  · intro name st hst hnone
    rw [WarmCache.lookup_loadStates] at hst
    obtain ⟨e, -, rfl⟩ := Option.map_eq_some_iff.mp hst
    rw [WarmCache.seed, hnone]
    exact Bool.and_false _

end SplitDNS.Mirror
