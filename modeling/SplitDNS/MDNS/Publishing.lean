import SplitDNS.MDNS.Source
import SplitDNS.Runs.Basic

/-! # Publishing from several calls at once

Calls on one source interleave: an update of the cache, the computation of a
view and the store of it are each atomic, but a call is not. A view that is
computed before an update of another call and stored after its view hides that
update. If no update falls between the computation and the store of a view, the
view published last is one of the final cache.
-/

namespace SplitDNS.MDNS

open Go Go.Netip Go.Strings Dns Model

/-- The views that may be built from the cache, one for each order of the loop. -/
def Cache.Views (c : Cache) (now : Time) : Set MDNSView := {v | ∃ visit, v = c.view now visit}

/-- A call at work: with updates to do, and whether it publishes then, or with a view to store. -/
inductive Work where
  | updating (trust : Trust) (todo : List Update) (changed : Bool)
  | publishing (v : MDNSView)

structure Shared where
  cache : Cache
  view : MDNSView
  calls : Map ℕ Work := ∅

inductive Step where
  | call (id : ℕ) (drive : Drive)
  | update (id : ℕ) (ord : Order)
  | compute (id : ℕ) (visit : RangeOrder Str Unit)
  | store (id : ℕ)
  | done (id : ℕ)

namespace Shared

variable (now : Time)

def step (s : Shared) : Step → Option Shared
  | .call id drive =>
    if id ∈ s.calls then none
    else some { s with calls := s.calls.insert id (.updating drive.trust drive.updates false) }
  | .update id ord =>
    match s.calls.lookup id with
    | some (.updating trust (u :: us) changed) =>
      let (c, news) := s.cache.update now trust ord u
      some { s with cache := c, calls := s.calls.insert id (.updating trust us (changed || news)) }
    | _ => none
  | .compute id visit =>
    match s.calls.lookup id with
    | some (.updating _ [] true) =>
      some { s with calls := s.calls.insert id (.publishing (s.cache.view now visit)) }
    | _ => none
  | .store id =>
    match s.calls.lookup id with
    | some (.publishing v) => some { s with view := v, calls := s.calls.erase id }
    | _ => none
  | .done id =>
    match s.calls.lookup id with
    | some (.updating _ [] false) => some { s with calls := s.calls.erase id }
    | _ => none

variable {now} {s s' : Shared} {id : ℕ}

section Inversion

theorem call_eq_some {drive : Drive} (h : s.step now (.call id drive) = some s') :
    id ∉ s.calls ∧ s' = { s with
      calls := s.calls.insert id (.updating drive.trust drive.updates false) } := by
  unfold step at h
  dsimp only at h
  split_ifs at h with hid
  exact ⟨hid, (Option.some.inj h).symm⟩

theorem update_eq_some {ord : Order} (h : s.step now (.update id ord) = some s') :
    ∃ trust u us changed, s.calls.lookup id = some (.updating trust (u :: us) changed) ∧
      s' = { s with
        cache := (s.cache.update now trust ord u).1
        calls := s.calls.insert id
          (.updating trust us (changed || (s.cache.update now trust ord u).2)) } := by
  unfold step at h
  dsimp only at h
  rcases hl : s.calls.lookup id with _ | ⟨trust, _ | ⟨u, us⟩, changed⟩ | v <;> rw [hl] at h
  · cases h
  · cases h
  · exact ⟨trust, u, us, changed, rfl, (Option.some.inj h).symm⟩
  · cases h

theorem compute_eq_some {visit : RangeOrder Str Unit}
    (h : s.step now (.compute id visit) = some s') :
    s' = { s with calls := s.calls.insert id (.publishing (s.cache.view now visit)) } := by
  unfold step at h
  dsimp only at h
  rcases hl : s.calls.lookup id with _ | ⟨trust, _ | ⟨u, us⟩, _ | _⟩ | v <;> rw [hl] at h
  · cases h
  · cases h
  · exact (Option.some.inj h).symm
  · cases h
  · cases h
  · cases h

theorem store_eq_some (h : s.step now (.store id) = some s') :
    ∃ v, s.calls.lookup id = some (.publishing v) ∧
      s' = { s with view := v, calls := s.calls.erase id } := by
  unfold step at h
  dsimp only at h
  rcases hl : s.calls.lookup id with _ | ⟨trust, todo, changed⟩ | v <;> rw [hl] at h
  · cases h
  · rcases todo with _ | ⟨u, us⟩ <;> cases changed <;> cases h
  · exact ⟨v, rfl, (Option.some.inj h).symm⟩

theorem done_eq_some (h : s.step now (.done id) = some s') :
    ∃ trust, s.calls.lookup id = some (.updating trust [] false) ∧
      s' = { s with calls := s.calls.erase id } := by
  unfold step at h
  dsimp only at h
  rcases hl : s.calls.lookup id with _ | ⟨trust, _ | ⟨u, us⟩, _ | _⟩ | v <;> rw [hl] at h
  · cases h
  · exact ⟨trust, rfl, (Option.some.inj h).symm⟩
  · cases h
  · cases h
  · cases h
  · cases h

end Inversion

end Shared

def Work.Publishes : Work → Prop
  | updating _ _ changed => changed = true
  | publishing _ => True

namespace Shared

variable {now : Time} {s s' : Shared} {st : Step}

/-- An update that changes what a view shows is published by its call, and no other call holds a
view that it has not stored yet. -/
def Orderly (now : Time) (s : Shared) : Step → Prop
  | .update id ord => ∀ trust u us changed,
      s.calls.lookup id = some (.updating trust (u :: us) changed) →
      (s.cache.update now trust ord u).1.Views now ≠ s.cache.Views now →
      (changed || (s.cache.update now trust ord u).2) = true ∧
        ∀ id' v, s.calls.lookup id' ≠ some (.publishing v)
  | _ => True

theorem publishing_of_insert_updating {calls : Map ℕ Work} {id id' : ℕ} {v : MDNSView}
    {trust : Trust} {todo : List Update} {changed : Bool}
    (h : (calls.insert id (.updating trust todo changed)).lookup id' = some (.publishing v)) :
    calls.lookup id' = some (.publishing v) := by
  rw [Map.lookup_insert_eq_ite] at h
  split_ifs at h
  · cases h
  · exact h

/-- Every view that waits to be stored is one of the cache, and so is the published one unless a
call is still going to publish. -/
structure UpToDate (now : Time) (s : Shared) : Prop where
  waiting : ∀ id v, s.calls.lookup id = some (.publishing v) → v ∈ s.cache.Views now
  published : s.view ∈ s.cache.Views now ∨ ∃ id w, s.calls.lookup id = some w ∧ w.Publishes

/-- An update that the views do not show leaves the waiting calls as they are, and one that they
show is orderly. -/
theorem UpToDate.update {id : ℕ} {ord : Order} {trust : Trust} {u : Update} {us : List Update}
    {changed : Bool} (hs : s.UpToDate now) (hst : Orderly now s (.update id ord))
    (hl₀ : s.calls.lookup id = some (.updating trust (u :: us) changed)) :
    UpToDate now { s with
      cache := (s.cache.update now trust ord u).1
      calls := s.calls.insert id
        (.updating trust us (changed || (s.cache.update now trust ord u).2)) } := by
  by_cases hviews : (s.cache.update now trust ord u).1.Views now = s.cache.Views now
  · constructor
    · exact fun id' v hl => hviews ▸ hs.waiting id' v (publishing_of_insert_updating hl)
    · rcases hs.published with hpub | ⟨id', w, hl, hw⟩
      · exact Or.inl (hviews ▸ hpub)
      · right
        rcases eq_or_ne id' id with rfl | hne
        · rw [hl₀] at hl
          cases hl
          refine ⟨id', _, AList.lookup_insert _, ?_⟩
          exact Bool.or_eq_true_iff.mpr (Or.inl hw)
        · exact ⟨id', w, (AList.lookup_insert_ne hne).trans hl, hw⟩
  · obtain ⟨hch, hnone⟩ := hst trust u us changed hl₀ hviews
    constructor
    · exact fun id' v hl => absurd (publishing_of_insert_updating hl) (hnone id' v)
    · exact Or.inr ⟨id, _, AList.lookup_insert _, hch⟩

theorem step_upToDate (hs : s.UpToDate now) (hst : Orderly now s st)
    (h : s.step now st = some s') : s'.UpToDate now := by
  cases st with
  | call id drive =>
    obtain ⟨hid, rfl⟩ := call_eq_some h
    constructor
    · exact fun id' v hl => hs.waiting id' v (publishing_of_insert_updating hl)
    · refine hs.published.imp_right ?_
      rintro ⟨id', w, hl, hw⟩
      refine ⟨id', w, ?_, hw⟩
      have hne : id' ≠ id := by
        rintro rfl
        exact hid (Map.mem_of_lookup hl)
      exact (AList.lookup_insert_ne hne).trans hl
  | update id ord =>
    obtain ⟨trust, u, us, changed, hl₀, rfl⟩ := update_eq_some h
    exact hs.update hst hl₀
  | compute id visit =>
    obtain rfl := compute_eq_some h
    constructor
    · intro id' v hl
      rw [Map.lookup_insert_eq_ite] at hl
      split_ifs at hl
      · cases hl
        exact ⟨visit, rfl⟩
      · exact hs.waiting id' v hl
    · exact Or.inr ⟨id, _, AList.lookup_insert _, trivial⟩
  | store id =>
    obtain ⟨v, hl₀, rfl⟩ := store_eq_some h
    constructor
    · exact fun id' v' hl => hs.waiting id' v' (Map.lookup_erase_eq_some hl).2
    · exact Or.inl (hs.waiting id v hl₀)
  | done id =>
    obtain ⟨trust, hl₀, rfl⟩ := done_eq_some h
    constructor
    · exact fun id' v' hl => hs.waiting id' v' (Map.lookup_erase_eq_some hl).2
    · refine hs.published.imp_right ?_
      rintro ⟨id', w, hl, hw⟩
      have hne : id' ≠ id := by
        rintro rfl
        rw [hl₀] at hl
        cases hl
        cases hw
      exact ⟨id', w, (AList.lookup_erase_ne hne).trans hl, hw⟩

/-- Whatever calls run at the same time: if every update is orderly, then once all of them have
ended the published view is one of the final cache. -/
theorem view_current_at_end (now : Time) (s₀ : Shared) (h₀ : s₀.calls = ∅)
    (hv : s₀.view ∈ s₀.cache.Views now) {es : List Step} {s : Shared}
    (hok : Runs.Along (step now) s₀ (fun _ s st => Orderly now s st) es)
    (hrun : Runs.run (step now) s₀ es = some s) (hend : s.calls = ∅) :
    s.view ∈ s.cache.Views now := by
  have hstart : s₀.UpToDate now := by
    refine ⟨fun id v hl => ?_, Or.inl hv⟩
    rw [h₀] at hl
    cases hl
  have hs : s.UpToDate now :=
    @Runs.inv_of_run _ _ (step now) s₀ s es (fun _ s => s.UpToDate now) _ hstart
      (fun _ _ _ _ hs hst h => step_upToDate hs hst h) hok hrun
  rcases hs.published with hpub | ⟨id, w, hl, -⟩
  · exact hpub
  · rw [hend] at hl
    cases hl

/-- A source that has just published, with nothing at work. -/
def idle (c : Cache) (now : Time) : Shared := { cache := c, view := c.view now default }

/-- Two packets at once: both update the cache before either view is computed, and the views are
stored in the other order. -/
theorem view_current_after_packets : ∃ s,
    Runs.run (step 0) (idle (.empty 0 0 0 1024) 0)
      [.call 0 (.announcing ['a', '.'] 120 1), .call 1 (.announcing ['b', '.'] 120 2), .update 0 {},
        .update 1 {}, .compute 0 default, .compute 1 default, .store 1, .store 0] = some s ∧
      s.view ∈ s.cache.Views 0 := by
  obtain ⟨s, hrun, hend⟩ : ∃ s, Runs.run (step 0) (idle (.empty 0 0 0 1024) 0)
      [.call 0 (.announcing ['a', '.'] 120 1), .call 1 (.announcing ['b', '.'] 120 2), .update 0 {},
        .update 1 {}, .compute 0 default, .compute 1 default, .store 1, .store 0] = some s ∧
      s.calls = ∅ := ⟨_, rfl, rfl⟩
  refine ⟨s, hrun, view_current_at_end 0 _ rfl ⟨default, rfl⟩ ?_ hrun hend⟩
  refine Runs.along_cons.mpr ⟨trivial, fun s₁ h₁ => Runs.along_cons.mpr ⟨trivial, fun s₂ h₂ => ?_⟩⟩
  obtain ⟨-, rfl⟩ := call_eq_some h₁
  obtain ⟨-, rfl⟩ := call_eq_some h₂
  refine Runs.along_cons.mpr ⟨?_, fun s₃ h₃ => Runs.along_cons.mpr ⟨?_, fun s₄ _ => ?_⟩⟩
  · rintro trust u us changed ⟨⟩ -
    refine ⟨by decide, fun id' v hl => ?_⟩
    cases publishing_of_insert_updating (publishing_of_insert_updating hl)
  · obtain ⟨_, _, _, _, ⟨⟩, rfl⟩ := update_eq_some h₃
    rintro trust u us changed ⟨⟩ -
    refine ⟨by decide, fun id' v hl => ?_⟩
    cases publishing_of_insert_updating
      (publishing_of_insert_updating (publishing_of_insert_updating hl))
  · -- the computations and the stores
    iterate 4 refine Runs.along_cons.mpr ⟨trivial, fun _ _ => ?_⟩
    exact Runs.along_nil

/-- A view is computed, then another call updates the cache and publishes, and then the first view
is stored. -/
theorem update_hidden : ∃ s,
    Runs.run (step 0) (idle (.empty 0 0 0 1024) 0)
      [.call 0 (.announcing ['a', '.'] 120 1), .call 1 (.announcing ['b', '.'] 120 2), .update 0 {},
        .compute 0 default, .update 1 {}, .compute 1 default, .store 1, .store 0] = some s ∧
      s.calls = ∅ ∧ s.view ∉ s.cache.Views 0 := by
  obtain ⟨s, hrun, hend, hlive, hhidden⟩ : ∃ s, Runs.run (step 0) (idle (.empty 0 0 0 1024) 0)
      [.call 0 (.announcing ['a', '.'] 120 1), .call 1 (.announcing ['b', '.'] 120 2), .update 0 {},
        .compute 0 default, .update 1 {}, .compute 1 default, .store 1, .store 0] = some s ∧
      s.calls = ∅ ∧ s.cache.Live 0 ['b'] (.v4 2) ∧ ¬ Lists s.view ['b'] (.v4 2) :=
    ⟨_, rfl, rfl, Or.inr ⟨_, rfl, by decide, by decide⟩, by decide⟩
  refine ⟨s, hrun, hend, ?_⟩
  rintro ⟨visit, hv⟩
  exact hhidden (hv ▸ Cache.lists_view hlive visit)

end Shared

end SplitDNS.MDNS
