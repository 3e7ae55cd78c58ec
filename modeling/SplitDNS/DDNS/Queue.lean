import SplitDNS.DDNS.Pipeline
import SplitDNS.Runs.Basic

/-! # The queue of changes

Submissions are one after another, but the consumer may receive between the
selects of a submission. A submission that finds the queue full takes out the
oldest change that is left and drops it. The newest change of a host then stays
in the queue until it is received exactly if the dropped changes are superseded
by others of their hosts.
-/

namespace SplitDNS.DDNS

/-- A change with the number of submissions before it. -/
structure Submission where
  no : ℕ
  change : Change
  deriving DecidableEq

/-- The queue with all that was submitted to it and received from it. -/
structure Feed where
  sent : List Submission := []
  received : List Submission := []
  queue : List Submission := []

inductive FeedEvent where
  | receive
  | submit (c : Change) (n₁ n₂ : ℕ)

namespace Feed

def receives (f : Feed) (n : ℕ) : Feed :=
  { f with received := f.received ++ f.queue.take n, queue := f.queue.drop n }

def dropOldest (f : Feed) : Feed := { f with queue := f.queue.tail }

def note (f : Feed) (c : Change) : Feed := { f with sent := f.sent ++ [⟨f.sent.length, c⟩] }

def push (f : Feed) (c : Change) : Feed :=
  { f.note c with queue := f.queue ++ [⟨f.sent.length, c⟩] }

/-- `Writer.Submit`, where the consumer receives `n₁` changes before the second select and `n₂`
before the third. -/
def submit (f : Feed) (c : Change) (n₁ n₂ : ℕ) : Feed :=
  if f.queue.length < chanCap then f.push c
  else
    let f := ((f.receives n₁).dropOldest).receives n₂
    if f.queue.length < chanCap then f.push c else f.note c

def step (f : Feed) : FeedEvent → Feed
  | .receive => f.receives 1
  | .submit c n₁ n₂ => f.submit c n₁ n₂

def Newest (f : Feed) (s : Submission) : Prop :=
  s ∈ f.sent ∧ ∀ s' ∈ f.sent, s'.change.host = s.change.host → s'.no ≤ s.no

/-- The newest change of every host is in the queue unless it was received. -/
def Kept (f : Feed) : Prop := ∀ s, f.Newest s → s ∉ f.received → s ∈ f.queue

/-- The change that a submission drops, if it has to, is superseded: by the submitted change or by
one behind it in the queue. -/
def Superseded (f : Feed) : FeedEvent → Prop
  | .receive => True
  | .submit c n₁ _ => chanCap ≤ f.queue.length → ∀ d rest, f.queue.drop n₁ = d :: rest →
      d.change.host = c.host ∨ ∃ d' ∈ rest, d'.change.host = d.change.host

/-- Changes leave the queue in the order in which they were submitted. -/
structure Ordered (f : Feed) : Prop where
  split : ∃ old, f.sent = old ++ f.queue ∧ ∀ s ∈ f.received, s ∈ old
  increasing : f.sent.Pairwise fun s s' => s.no < s'.no
  below : ∀ s ∈ f.sent, s.no < f.sent.length
  bounded : f.queue.length ≤ chanCap

variable {f : Feed} {c : Change} {n n₁ n₂ : ℕ} {s : Submission}

theorem submit_of_full (ho : f.Ordered) (hfull : chanCap ≤ f.queue.length) :
    f.submit c n₁ n₂ = (((f.receives n₁).dropOldest).receives n₂).push c := by
  have hroom : ((f.queue.drop n₁).tail.drop n₂).length < chanCap := by
    have hb := ho.bounded
    simp only [List.length_drop, List.length_tail, chanCap] at hb ⊢
    omega
  unfold submit
  rw [if_neg (not_lt.mpr hfull)]
  exact if_pos hroom

theorem Ordered.receives (ho : f.Ordered) (n : ℕ) : (f.receives n).Ordered := by
  obtain ⟨old, hsent, hold⟩ := ho.split
  refine ⟨⟨old ++ f.queue.take n, ?_, ?_⟩, ho.increasing, ho.below, ?_⟩
  · rw [List.append_assoc]
    exact hsent.trans (congrArg (old ++ ·) (List.take_append_drop n f.queue).symm)
  · intro s hs
    rcases List.mem_append.mp hs with hs | hs
    · exact List.mem_append_left _ (hold s hs)
    · exact List.mem_append_right _ hs
  · simp only [Feed.receives, List.length_drop]
    exact (Nat.sub_le _ _).trans ho.bounded

theorem Ordered.dropOldest (ho : f.Ordered) : f.dropOldest.Ordered := by
  obtain ⟨old, hsent, hold⟩ := ho.split
  refine ⟨⟨old ++ f.queue.take 1, ?_, ?_⟩, ho.increasing, ho.below, ?_⟩
  · rw [List.append_assoc, Feed.dropOldest, ← List.drop_one]
    exact hsent.trans (congrArg (old ++ ·) (List.take_append_drop 1 f.queue).symm)
  · exact fun s hs => List.mem_append_left _ (hold s hs)
  · simp only [Feed.dropOldest, List.length_tail]
    exact (Nat.sub_le _ _).trans ho.bounded

theorem Ordered.push (ho : f.Ordered) (hroom : f.queue.length < chanCap) (c : Change) :
    (f.push c).Ordered := by
  obtain ⟨old, hsent, hold⟩ := ho.split
  refine ⟨⟨old, ?_, hold⟩, ?_, ?_, ?_⟩
  · simp only [Feed.push, note]
    rw [← List.append_assoc, ← hsent]
  · refine List.pairwise_append.mpr ⟨ho.increasing, List.pairwise_singleton _ _, ?_⟩
    intro s hs s' hs'
    rw [List.mem_singleton.mp hs']
    exact ho.below s hs
  · intro s hs
    simp only [Feed.push, note, List.length_append, List.length_singleton] at hs ⊢
    rcases List.mem_append.mp hs with hs | hs
    · exact Nat.lt_succ_of_lt (ho.below s hs)
    · rw [List.mem_singleton.mp hs]
      exact Nat.lt_succ_self _
  · simp only [Feed.push, List.length_append, List.length_singleton]
    exact hroom

theorem Ordered.submit (ho : f.Ordered) (c : Change) (n₁ n₂ : ℕ) : (f.submit c n₁ n₂).Ordered := by
  rcases Nat.lt_or_ge f.queue.length chanCap with hroom | hfull
  · rw [Feed.submit, if_pos hroom]
    exact ho.push hroom c
  · rw [submit_of_full ho hfull]
    refine (((ho.receives n₁).dropOldest).receives n₂).push ?_ c
    have hb := ho.bounded
    simp only [Feed.receives, Feed.dropOldest, List.length_drop, List.length_tail, chanCap] at hb ⊢
    omega

theorem submit_changes (ho : f.Ordered) (c : Change) :
    (f.submit c 0 0).queue.map Submission.change =
      DDNS.submit (f.queue.map Submission.change) c := by
  rw [DDNS.submit, List.length_map]
  rcases Nat.lt_or_ge f.queue.length chanCap with hroom | hfull
  · rw [if_pos hroom, Feed.submit, if_pos hroom]
    exact List.map_append
  · rw [if_neg (not_lt.mpr hfull), submit_of_full ho hfull]
    simp [Feed.push, Feed.receives, Feed.dropOldest, List.map_tail]

theorem Ordered.not_mem_received (ho : f.Ordered) (hs : s ∈ f.queue) : s ∉ f.received := by
  obtain ⟨old, hsent, hold⟩ := ho.split
  intro hr
  have hinc := ho.increasing
  rw [hsent, List.pairwise_append] at hinc
  exact lt_irrefl _ (hinc.2.2 s (hold s hr) s hs)

theorem Newest.of_push (h : (f.push c).Newest s) : s = ⟨f.sent.length, c⟩ ∨ f.Newest s := by
  rcases List.mem_append.mp h.1 with hs | hs
  · exact Or.inr ⟨hs, fun s' hs' => h.2 s' (List.mem_append_left _ hs')⟩
  · exact Or.inl (List.mem_singleton.mp hs)

theorem Kept.receives (hk : f.Kept) (n : ℕ) : (f.receives n).Kept := by
  intro s hnew hnot
  have hs := hk s hnew fun hr => hnot (List.mem_append_left _ hr)
  rw [← List.take_append_drop n f.queue] at hs
  exact (List.mem_append.mp hs).resolve_left fun ht => hnot (List.mem_append_right _ ht)

theorem Kept.push (hk : f.Kept) (c : Change) : (f.push c).Kept := by
  intro s hnew hnot
  rcases hnew.of_push with rfl | hold
  · exact List.mem_append_right _ List.mem_cons_self
  · exact List.mem_append_left _ (hk s hold hnot)

section Oldest

variable {d : Submission} {rest : List Submission}

theorem Ordered.oldest (ho : f.Ordered) (hq : f.queue = d :: rest) :
    d ∈ f.sent ∧ (∀ s ∈ rest, s ∈ f.sent ∧ d.no < s.no) ∧ ∀ s ∈ f.sent, s ∈ rest ∨ s.no ≤ d.no := by
  obtain ⟨old, hsent, -⟩ := ho.split
  have hinc := ho.increasing
  rw [hq] at hsent
  rw [hsent, List.pairwise_append, List.pairwise_cons] at hinc
  obtain ⟨-, ⟨hrest, -⟩, hbefore⟩ := hinc
  rw [hsent]
  refine ⟨List.mem_append_right _ List.mem_cons_self, fun s hs => ⟨?_, hrest s hs⟩, fun s hs => ?_⟩
  · exact List.mem_append_right _ (List.mem_cons_of_mem _ hs)
  · rcases List.mem_append.mp hs with hs | hs
    · exact Or.inr (hbefore s hs d List.mem_cons_self).le
    · rcases List.mem_cons.mp hs with rfl | hs
      · exact Or.inr le_rfl
      · exact Or.inl hs

/-- The oldest pending change is still the newest of its host after a submission exactly if it is
not superseded. -/
theorem newest_oldest_iff (ho : f.Ordered) (hq : f.queue = d :: rest) (c : Change) :
    (f.push c).Newest d ↔
      ¬ (d.change.host = c.host ∨ ∃ d' ∈ rest, d'.change.host = d.change.host) := by
  obtain ⟨hmem, hrest, hothers⟩ := ho.oldest hq
  constructor
  · rintro ⟨-, hnewest⟩ (hhost | ⟨d', hd', hhost⟩)
    · have hle := hnewest ⟨f.sent.length, c⟩ (List.mem_append_right _ List.mem_cons_self) hhost.symm
      exact absurd hle (not_le.mpr (ho.below d hmem))
    · have hle := hnewest d' (List.mem_append_left _ (hrest d' hd').1) hhost
      exact absurd hle (not_le.mpr (hrest d' hd').2)
  · intro hno
    refine ⟨List.mem_append_left _ hmem, fun s hs hhost => ?_⟩
    rcases List.mem_append.mp hs with hs | hs
    · exact (hothers s hs).resolve_left fun h => hno (Or.inr ⟨s, h, hhost⟩)
    · rw [List.mem_singleton.mp hs] at hhost
      exact absurd (Or.inl hhost.symm) hno

theorem Ordered.not_mem_of_dropOldest (ho : f.Ordered) (hq : f.queue = d :: rest) (c : Change)
    (n : ℕ) : d ∉ ((f.dropOldest.receives n).push c).received ∧
      d ∉ ((f.dropOldest.receives n).push c).queue := by
  obtain ⟨hmem, hrest, -⟩ := ho.oldest hq
  have htail : d ∉ f.dropOldest.queue := by
    rw [Feed.dropOldest, hq]
    exact fun h => lt_irrefl _ (hrest d h).2
  constructor
  · intro hr
    rcases List.mem_append.mp hr with hr | hr
    · exact ho.not_mem_received (hq ▸ List.mem_cons_self) hr
    · exact htail (List.mem_of_mem_take hr)
  · intro hd
    rcases List.mem_append.mp hd with hd | hd
    · exact htail (List.mem_of_mem_drop hd)
    · have hbelow := ho.below d hmem
      rw [List.mem_singleton.mp hd] at hbelow
      exact lt_irrefl _ hbelow

theorem push_dropOldest_kept_iff (ho : f.Ordered) (hk : f.Kept) (c : Change) (n : ℕ) :
    ((f.dropOldest.receives n).push c).Kept ↔
      ∀ d rest, f.queue = d :: rest →
        d.change.host = c.host ∨ ∃ d' ∈ rest, d'.change.host = d.change.host := by
  constructor
  · intro hkept d rest hq
    by_contra hno
    obtain ⟨hreceived, hqueue⟩ := ho.not_mem_of_dropOldest hq c n
    exact hqueue (hkept d ((newest_oldest_iff ho hq c).mpr hno) hreceived)
  · intro hsup s hnew hnot
    rcases hnew.of_push with rfl | hnewest
    · exact List.mem_append_right _ List.mem_cons_self
    · have hs := hk s hnewest fun hr => hnot (List.mem_append_left _ hr)
      refine List.mem_append_left _ ?_
      rcases hq : f.queue with _ | ⟨d, rest⟩
      · rw [hq] at hs
        cases hs
      · rw [hq] at hs
        rcases List.mem_cons.mp hs with rfl | hs
        · exact absurd (hsup s rest hq) ((newest_oldest_iff ho hq c).mp hnew)
        · have htail : s ∈ f.dropOldest.queue := by
            rw [dropOldest, hq]
            exact hs
          rw [← List.take_append_drop n f.dropOldest.queue] at htail
          exact (List.mem_append.mp htail).resolve_left fun ht =>
            hnot (List.mem_append_right _ ht)

end Oldest

theorem step_kept_iff (ho : f.Ordered) (hk : f.Kept) (e : FeedEvent) :
    (f.step e).Kept ↔ f.Superseded e := by
  cases e with
  | receive => exact iff_of_true (hk.receives 1) trivial
  | submit c n₁ n₂ =>
    rcases Nat.lt_or_ge f.queue.length chanCap with hroom | hfull
    · rw [step, submit, if_pos hroom]
      exact iff_of_true (hk.push c) fun hfull => absurd hfull (not_le.mpr hroom)
    · rw [step, submit_of_full ho hfull,
        push_dropOldest_kept_iff (ho.receives n₁) (hk.receives n₁) c n₂]
      exact ⟨fun h _ => h, fun h => h hfull⟩

theorem Ordered.step (ho : f.Ordered) (e : FeedEvent) : (f.step e).Ordered := by
  cases e with
  | receive => exact ho.receives 1
  | submit c n₁ n₂ => exact ho.submit c n₁ n₂

theorem run_ordered (events : List FeedEvent) : (events.foldl step {}).Ordered := by
  refine @Runs.inv_foldl _ _ step {} (fun _ f => f.Ordered) ?_ ?_ events
  · exact ⟨⟨[], rfl, fun s hs => hs⟩, .nil, fun s hs => absurd hs List.not_mem_nil,
      Nat.zero_le _⟩
  · exact fun _ f e ho => ho.step e

/-- The newest change of every host is in the queue or received all along a run exactly if every
change that is dropped in the run is superseded. -/
theorem newest_kept_iff (events : List FeedEvent) :
    (∀ pre, pre <+: events → (pre.foldl step {}).Kept) ↔
      Runs.Always step {} (fun _ f e => f.Superseded e) events := by
  constructor
  · rintro hkept pre e post rfl
    have hafter := hkept (pre ++ [e]) ⟨post, by simp⟩
    rw [List.foldl_append] at hafter
    exact (step_kept_iff (run_ordered pre) (hkept pre (List.prefix_append _ _)) e).mp hafter
  · rintro hsup pre ⟨post, rfl⟩
    refine (@Runs.inv_of_always _ _ step {} (fun _ f => f.Ordered ∧ f.Kept) _ ⟨?_, ?_⟩ ?_ pre
      hsup.of_append).2
    · exact run_ordered []
    · exact fun s hnew => absurd hnew.1 List.not_mem_nil
    · rintro _ f e ⟨ho, hk⟩ he
      exact ⟨ho.step e, (step_kept_iff ho hk e).mpr he⟩

/-- One change of a host followed by as many of another as the queue has room for. -/
def crowd : List FeedEvent :=
  .submit ⟨['a'], []⟩ 0 0 :: List.replicate 64 (.submit ⟨['b'], []⟩ 0 0)

/-- The only change of a host is dropped for a change of another one. -/
theorem crowded_out : ¬ (crowd.foldl step {}).Kept := by
  intro hk
  have hmem := hk ⟨0, ['a'], []⟩ ⟨by decide +kernel, by decide +kernel⟩ (by decide +kernel)
  revert hmem
  decide +kernel

end Feed

end SplitDNS.DDNS
