import SplitDNS.Mirror.Builder

/-! # The published vhosts

Every change of the vhost feed is followed by a republish, yet the snapshot
published last may hold an older set: a refresh reads the set before it takes
the lock, and by the time it stores its snapshot the feed may have changed and
the republish of that change may be over. Runs in which no refresh comes that
late end with the set of the feed published.
-/

namespace SplitDNS.Mirror.Builder

open Go Model Runs

/-- A refresh or warm start that stores its snapshot has read the set the feed has now, or the
republish of a later change is still to come. -/
def Timely (b : Builder) (e : Event) : Prop :=
  match e, b.locked with
  | .proceed, some (.store snap) => snap.vhosts = b.feed ∨ b.republishes.Nonempty
  | _, _ => True

instance (b : Builder) (e : Event) : Decidable (b.Timely e) := by
  unfold Timely
  split <;> infer_instance

/-- The last snapshot has the vhosts of the feed, or a republish will give it those. -/
def Fresh (b : Builder) : Prop :=
  b.republishes.Nonempty ∨ b.locked = some .clone ∨
    ∀ snap, b.last = some snap → snap.vhosts = b.feed

/-- The last snapshot is published, or is the one about to be. -/
def Synced (b : Builder) : Prop :=
  match b.locked with
  | some (.publish snap) => b.last = some snap
  | _ => b.published = b.last

variable {b b' : Builder} {e : Event}

section Steps

variable {id : ℕ} {snap : Snapshot} {set : Finset Str}

theorem startBuild_fresh (h : b.Fresh ∧ b.Synced) (hs : b.startBuild id snap = some b') :
    b'.Fresh ∧ b'.Synced := by
  unfold startBuild at hs
  split_ifs at hs
  cases hs
  exact h

theorem startRepublish_fresh (h : b.Synced) (hs : b.startRepublish id = some b') :
    b'.Fresh ∧ b'.Synced := by
  unfold startRepublish at hs
  split_ifs at hs
  cases hs
  exact ⟨Or.inl (Finset.insert_nonempty _ _), h⟩

theorem poll_fresh (h : b.Fresh ∧ b.Synced) (hs : b.poll id set = some b') :
    b'.Fresh ∧ b'.Synced := by
  unfold poll at hs
  split_ifs at hs
  · cases hs
    exact h
  · exact startRepublish_fresh (b := { b with feed := set }) h.2 hs

theorem readVHosts_fresh (h : b.Fresh ∧ b.Synced) (hs : b.readVHosts id = some b') :
    b'.Fresh ∧ b'.Synced := by
  unfold readVHosts at hs
  split at hs
  · cases hs
    exact h
  · cases hs

theorem lockBuild_fresh (h : b.Fresh ∧ b.Synced) (hs : b.lockBuild id = some b') :
    b'.Fresh ∧ b'.Synced := by
  unfold lockBuild at hs
  split at hs
  next hlock _ =>
    cases hs
    obtain ⟨hfresh, hsync⟩ := h
    constructor
    · exact hfresh.imp_right fun h => Or.inr (h.resolve_left (by simp [hlock]))
    · simpa only [Synced, hlock] using hsync
  next => cases hs

theorem lockRepublish_fresh (h : b.Synced) (hs : b.lockRepublish id = some b') :
    b'.Fresh ∧ b'.Synced := by
  unfold lockRepublish at hs
  split_ifs at hs with hlock
  cases hs
  have hnone := Option.isNone_iff_eq_none.mp hlock.1
  exact ⟨Or.inr (Or.inl rfl), by simpa only [Synced, hnone] using h⟩

theorem proceed_fresh (h : b.Fresh ∧ b.Synced) (ht : b.Timely .proceed)
    (hs : b.proceed = some b') : b'.Fresh ∧ b'.Synced := by
  obtain ⟨hfresh, hsync⟩ := h
  unfold proceed at hs
  rcases hl : b.locked with _ | (snap | _ | snap | _) <;> simp only [hl] at hs
  case none => cases hs
  case some.store =>
    cases hs
    constructor
    · rcases (by simpa only [Timely, hl] using ht : snap.vhosts = b.feed ∨ _) with hv | hr
      · right; right
        rintro _ ⟨⟩
        exact hv
      · exact Or.inl hr
    · rfl
  case some.clone =>
    split at hs
    next hlast =>
      cases hs
      constructor
      · right; right
        simp [hlast]
      · simpa only [Synced, hl] using hsync
    next =>
      cases hs
      constructor
      · right; right
        rintro _ ⟨⟩
        rfl
      · rfl
  case some.publish =>
    cases hs
    constructor
    · exact hfresh.imp_right fun h => Or.inr (h.resolve_left (by simp [hl]))
    · have hlast : b.last = some snap := by simpa only [Synced, hl] using hsync
      exact hlast.symm
  case some.unlock =>
    cases hs
    constructor
    · exact hfresh.imp_right fun h => Or.inr (h.resolve_left (by simp [hl]))
    · simpa only [Synced, hl] using hsync

end Steps

theorem step_fresh (h : b.Fresh ∧ b.Synced) (ht : b.Timely e) (hs : b.step e = some b') :
    b'.Fresh ∧ b'.Synced := by
  cases e with
  | refresh id snap => exact startBuild_fresh h hs
  | warmStart id snap => exact startBuild_fresh h hs
  | republish id => exact startRepublish_fresh h.2 hs
  | poll id set => exact poll_fresh h hs
  | setDDR ddr =>
    cases hs
    exact h
  | readVHosts id => exact readVHosts_fresh h hs
  | lockBuild id => exact lockBuild_fresh h hs
  | lockRepublish id => exact lockRepublish_fresh h.2 hs
  | proceed => exact proceed_fresh h ht hs

theorem run_fresh {es : List Event} (hok : Along step {} (fun _ => Timely) es)
    (hrun : run step {} es = some b) : b.Fresh ∧ b.Synced := by
  refine @inv_of_run _ _ step {} b es (fun _ b => b.Fresh ∧ b.Synced) (fun _ => Timely) ?_ ?_
    hok hrun
  · refine ⟨Or.inr (Or.inr ?_), rfl⟩
    rintro _ ⟨⟩
  · exact fun _ _ _ _ h ht hs => step_fresh h ht hs

/-- In a run without late refreshes, once every operation has finished, the snapshot published
last has the vhosts of the feed. -/
theorem published_vhosts_eq_feed (es : List Event) (b : Builder) (snap : Snapshot)
    (hok : Along step {} (fun _ => Timely) es) (hrun : run step {} es = some b) (hidle : b.Idle)
    (hpub : b.published = some snap) : snap.vhosts = b.feed := by
  obtain ⟨hfresh, hsync⟩ := run_fresh hok hrun
  obtain ⟨hlock, -, hrep⟩ := hidle
  have hnone := Option.isNone_iff_eq_none.mp hlock
  have hlast : b.published = b.last := by simpa only [Synced, hnone] using hsync
  rcases hfresh with h | h | h
  · simp [hrep] at h
  · simp [hnone] at h
  · exact h snap (hlast ▸ hpub)

section Race

/-- The steps of a refresh or republish from the lock to its end. -/
def underLock (lock : Event) : List Event := [lock, .proceed, .proceed, .proceed]

/-- A second refresh reads the vhosts, the feed gets its first name and publishes it, and the
refresh goes on. -/
def lateRefresh : List Event :=
  [.refresh 0 {}, .readVHosts 0] ++ underLock (.lockBuild 0) ++
  [.refresh 1 {}, .readVHosts 1, .poll 0 {"www".toList}] ++ underLock (.lockRepublish 0) ++
  underLock (.lockBuild 1)

/-- The feed gets its first name between the read of a refresh and its store, and the republish
comes after both. -/
def timelyRefresh : List Event :=
  [.refresh 0 {}, .readVHosts 0, .poll 0 {"www".toList}] ++ underLock (.lockBuild 0) ++
  underLock (.lockRepublish 0)

/-- The set the feed published is overwritten with the older one the refresh had read. -/
theorem lateRefresh_publishes_old_vhosts :
    ∃ b snap, run step {} lateRefresh = some b ∧ b.Idle ∧ b.published = some snap ∧
      snap.vhosts = ∅ ∧ b.feed = {"www".toList} :=
  ⟨_, _, rfl, by decide, rfl, by decide, by decide⟩

theorem timelyRefresh_publishes_feed :
    ∃ b snap, run step {} timelyRefresh = some b ∧ b.published = some snap ∧
      snap.vhosts = b.feed ∧ b.feed = {"www".toList} :=
  ⟨_, _, rfl, rfl, published_vhosts_eq_feed timelyRefresh _ _ (by decide) rfl (by decide) rfl,
    by decide⟩

end Race

end SplitDNS.Mirror.Builder
