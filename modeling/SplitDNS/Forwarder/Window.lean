import Mathlib.Algebra.BigOperators.Group.List.Basic
import Mathlib.Tactic.Linarith
import SplitDNS.Forwarder.Probes
import SplitDNS.Wheel.Basic

/-! # The rolling window of a breaker

The buckets of a breaker are a ring of slices of time, which lags behind the
clock until an outcome is recorded. Compared with the outcomes recorded since the
breaker last closed: the slot at the head holds those of the current slice, each
slot behind it those of the slice before, and what has left the ring is as old as
all its slices but one.
-/

namespace SplitDNS.Forwarder

open Go Wheel

structure Outcome where
  time : Time
  ok : Bool
  deriving DecidableEq

def tally (os : List Outcome) : Bucket where
  ok := (os.filter fun o => o.ok).length
  fail := (os.filter fun o => !o.ok).length

def tallyIn (os : List Outcome) (dur : Duration) (start : Time) : Bucket :=
  tally (os.filter fun o => start ≤ o.time ∧ o.time < start + dur)

section Tallies

variable {os : List Outcome} {dur : Duration} {start : Time} {n : ℕ}

theorem tallyIn_eq_empty (h : ∀ o ∈ os, o.time < start) : tallyIn os dur start = {} := by
  have hnone : os.filter (fun o => start ≤ o.time ∧ o.time < start + dur) = [] :=
    List.filter_eq_nil_iff.mpr fun o ho => by simp [h o ho]
  rw [tallyIn, hnone]
  rfl

theorem slices_eq_replicate (h : ∀ i < n, ∀ o ∈ os, o.time < start - i * dur) :
    slices (tallyIn os dur) start dur n = List.replicate n {} := by
  induction n with
  | zero => rfl
  | succ n ih =>
    rw [slices, ih fun i hi => h i (hi.trans (Nat.lt_succ_self n)),
      tallyIn_eq_empty (h n (Nat.lt_succ_self n))]
    rfl

theorem slices_concat (os : List Outcome) {o : Outcome} (hdur : 0 ≤ dur) (hlo : start ≤ o.time)
    (n : ℕ) :
    slices (tallyIn (os ++ [o]) dur) (start - dur) dur n =
      slices (tallyIn os dur) (start - dur) dur n := by
  induction n with
  | zero => rfl
  | succ n ih =>
    have hback : 0 ≤ (n : ℤ) * dur := Int.mul_nonneg (Int.natCast_nonneg n) hdur
    have hlate : ¬ o.time < start - dur - n * dur + dur := by linarith
    have hsame : tallyIn (os ++ [o]) dur (start - dur - n * dur) =
        tallyIn os dur (start - dur - n * dur) := by
      rw [tallyIn, tallyIn, List.filter_append, List.filter_singleton]
      simp [hlate]
    rw [slices, slices, ih, hsame]

theorem tallyIn_concat {t : Time} (hlo : start ≤ t) (hhi : t < start + dur) (ok : Bool) :
    tallyIn (os ++ [⟨t, ok⟩]) dur start =
      if ok then { tallyIn os dur start with ok := (tallyIn os dur start).ok + 1 }
      else { tallyIn os dur start with fail := (tallyIn os dur start).fail + 1 } := by
  unfold tallyIn
  rw [List.filter_append, List.filter_cons_of_pos (by simp [hlo, hhi]), List.filter_nil]
  cases ok <;> simp [tally]

theorem length_filter_slice (p : Outcome → Bool) (hdur : 0 ≤ dur) :
    ((os.filter fun o => start ≤ o.time).filter p).length =
      ((os.filter fun o => start ≤ o.time ∧ o.time < start + dur).filter p).length +
        ((os.filter fun o => start + dur ≤ o.time).filter p).length := by
  rw [List.length_eq_length_filter_add fun o => decide (o.time < start + dur)]
  simp only [List.filter_filter]
  congr 2
  · refine List.filter_congr fun o _ => ?_
    rw [Bool.decide_and, ← Bool.and_assoc, Bool.and_comm (decide (o.time < _)), Bool.and_assoc,
      Bool.and_comm (decide (o.time < _))]
  · refine List.filter_congr fun o _ => ?_
    by_cases hlate : start + dur ≤ o.time
    · have hlo : start ≤ o.time := by linarith
      simp [hlate, hlo, not_lt.mpr hlate]
    · simp [hlate, not_le.mp hlate]

theorem sum_slices {g : Bucket → ℕ} {p : Outcome → Bool}
    (hg : ∀ l, g (tally l) = (l.filter p).length) (hdur : 0 ≤ dur)
    (h : ∀ o ∈ os, o.time < start + dur) :
    ((slices (tallyIn os dur) start dur n).map g).sum =
      ((os.filter fun o => start + dur - n * dur ≤ o.time).filter p).length := by
  induction n with
  | zero =>
    have hnone : os.filter (fun o => start + dur - (0 : ℕ) * dur ≤ o.time) = [] :=
      List.filter_eq_nil_iff.mpr fun o ho => by simpa using h o ho
    rw [hnone]
    rfl
  | succ n ih =>
    have hfrom : start + dur - (n + 1 : ℕ) * dur = start - n * dur := by
      push_cast
      ring
    have hto : start - n * dur + dur = start + dur - n * dur := by ring
    rw [hfrom, length_filter_slice p hdur, hto, ← ih, slices, List.map_cons, List.sum_cons,
      tallyIn, hg, hto]

end Tallies

namespace Breaker

variable {pol : Policy} {b : Breaker} {os : List Outcome} {start t : Time}

/-- The ring has the measures of the policy, and a head. -/
structure Spans (b : Breaker) (pol : Policy) : Prop where
  window_eq : b.pol.window = pol.window
  dur_eq : b.bucketDur = pol.window / max pol.buckets 1
  length_eq : b.buckets.length = max pol.buckets 1
  head_lt : b.headIdx < b.buckets.length

/-- The slices of the ring hold the outcomes of the list, the last of which starts at the given
time. -/
structure Sliced (b : Breaker) (os : List Outcome) (start : Time) : Prop where
  headStart : b.headStart = some start
  lt : ∀ o ∈ os, o.time < start + b.bucketDur
  queue_eq : queue b.buckets b.headIdx =
    slices (tallyIn os b.bucketDur) start b.bucketDur b.buckets.length

theorem buckets_pos (pol : Policy) : 0 < max pol.buckets 1 := lt_max_of_lt_right one_pos

theorem Spans.dur_pos (h : b.Spans pol) : 0 < b.bucketDur := by
  rw [h.dur_eq]
  exact Int.le_ediv_of_mul_le (buckets_pos pol) ((one_mul _).trans_le pol.spans)

theorem Spans.span (h : b.Spans pol) : b.buckets.length * b.bucketDur ≤ pol.window := by
  rw [h.dur_eq, h.length_eq]
  exact Int.mul_ediv_self_le (buckets_pos pol).ne'

theorem spans_new (pol : Policy) : (newBreaker pol).Spans pol := by
  have hpos := buckets_pos pol
  have hlen : ((newBreaker pol).buckets.length : ℤ) = max pol.buckets 1 := by
    rw [newBreaker, Settings.breaker, List.length_replicate]
    exact Int.toNat_of_nonneg hpos.le
  refine ⟨rfl, Int.tdiv_eq_ediv_of_nonneg (hpos.le.trans pol.spans), hlen, ?_⟩
  change 0 < (newBreaker pol).buckets.length
  omega

theorem Spans.advanceOne (h : b.Spans pol) (start : Time) : (b.advanceOne start).Spans pol where
  window_eq := h.window_eq
  dur_eq := h.dur_eq
  length_eq := by
    rw [Breaker.advanceOne]
    dsimp only
    rw [List.length_set]
    exact h.length_eq
  head_lt := by
    rw [Breaker.advanceOne]
    dsimp only
    rw [List.length_set]
    exact Nat.mod_lt _ (Nat.zero_lt_of_lt h.head_lt)

theorem Sliced.advanceOne (hb : b.Spans pol) (h : b.Sliced os start) :
    (b.advanceOne start).Sliced os (start + b.bucketDur) := by
  have hne : b.buckets ≠ [] := List.ne_nil_of_length_pos (Nat.zero_lt_of_lt hb.head_lt)
  obtain ⟨n, hn⟩ : ∃ n, b.buckets.length = n + 1 :=
    Nat.exists_eq_succ_of_ne_zero (List.length_pos_iff.mpr hne).ne'
  refine ⟨rfl, fun o ho => ?_, ?_⟩
  · have hlt := h.lt o ho
    have hpos := hb.dur_pos
    change o.time < start + b.bucketDur + b.bucketDur
    linarith
  · change queue (b.buckets.set ((b.headIdx + 1) % b.buckets.length) {})
      ((b.headIdx + 1) % b.buckets.length) = slices (tallyIn os b.bucketDur) (start + b.bucketDur)
        b.bucketDur (b.buckets.set ((b.headIdx + 1) % b.buckets.length) {}).length
    rw [queue_advance hne, h.queue_eq, List.length_set, hn, slices_advance, slices, List.tail_cons,
      tallyIn_eq_empty h.lt]

theorem advanceBuckets_sliced (n : ℕ) (hb : b.Spans pol) (h : b.Sliced os start) :
    (advanceBuckets n b).Spans pol ∧ (advanceBuckets n b).Sliced os (start + n * b.bucketDur) := by
  induction n generalizing b start with
  | zero => simpa [advanceBuckets] using And.intro hb h
  | succ n ih =>
    have hnext := ih (hb.advanceOne start) (h.advanceOne hb)
    have hsum : start + b.bucketDur + n * (b.advanceOne start).bucketDur =
        start + (n + 1 : ℕ) * b.bucketDur := by
      change start + b.bucketDur + n * b.bucketDur = _
      push_cast
      ring
    rw [hsum] at hnext
    rw [advanceBuckets, h.headStart]
    exact hnext

theorem sliced_of_empty (hstart : b.headStart = some t) (hempty : ∀ bk ∈ b.buckets, bk = {})
    (hold : ∀ o ∈ os, o.time < t - (b.buckets.length - 1) * b.bucketDur) (hb : b.Spans pol) :
    b.Sliced os t := by
  have hpos := hb.dur_pos
  refine ⟨hstart, fun o ho => ?_, ?_⟩
  · have hlen : (0 : ℤ) ≤ (b.buckets.length - 1 : ℤ) * b.bucketDur := by
      refine Int.mul_nonneg ?_ hpos.le
      have := hb.head_lt
      omega
    have := hold o ho
    linarith
  · have hcells : queue b.buckets b.headIdx = List.replicate b.buckets.length {} := by
      refine List.eq_replicate_iff.mpr ⟨(queue_perm _ _).length_eq, fun bk hbk => ?_⟩
      exact hempty bk ((queue_perm _ _).mem_iff.mp hbk)
    rw [hcells, slices_eq_replicate]
    intro i hi o ho
    have hi' : (i : ℤ) ≤ b.buckets.length - 1 := by omega
    have hback : (i : ℤ) * b.bucketDur ≤ (b.buckets.length - 1) * b.bucketDur :=
      Int.mul_le_mul_of_nonneg_right hi' hpos.le
    have := hold o ho
    linarith

/-- Before its first outcome since it closed, the ring is empty. -/
structure Counts (b : Breaker) (pol : Policy) (os : List Outcome) (clock : Time) : Prop where
  spans : b.Spans pol
  le_clock : ∀ start, b.headStart = some start → start ≤ clock
  idle : b.headStart = none → os = [] ∧ ∀ bk ∈ b.buckets, bk = {}
  sliced : ∀ start, b.headStart = some start → b.Sliced os start

theorem Sliced.counts {clock : Time} (h : b.Sliced os start) (hb : b.Spans pol)
    (hle : start ≤ clock) : b.Counts pol os clock where
  spans := hb
  le_clock s hs := by
    rw [h.headStart] at hs
    cases hs
    exact hle
  idle hs := by
    rw [h.headStart] at hs
    cases hs
  sliced s hs := by
    rw [h.headStart] at hs
    cases hs
    exact h

theorem counts_new (pol : Policy) (clock : Time) : (newBreaker pol).Counts pol [] clock where
  spans := spans_new pol
  le_clock _ h := by cases h
  idle _ := ⟨rfl, fun _ h => List.eq_of_mem_replicate h⟩
  sliced _ h := by cases h

/-- The ring with empty slices, the first of which starts at the given time. -/
def emptied (b : Breaker) (t : Time) : Breaker :=
  { b with buckets := b.buckets.map fun _ => {}, headStart := some t, headIdx := 0 }

theorem length_emptied (b : Breaker) (t : Time) :
    (b.emptied t).buckets.length = b.buckets.length := List.length_map _

theorem Spans.emptied (h : b.Spans pol) (t : Time) : (b.emptied t).Spans pol where
  window_eq := h.window_eq
  dur_eq := h.dur_eq
  length_eq := by
    rw [length_emptied]
    exact h.length_eq
  head_lt := by
    rw [length_emptied]
    exact Nat.zero_lt_of_lt h.head_lt

theorem Sliced.emptied (hb : b.Spans pol) (h : b.Sliced os start)
    (hwindow : b.pol.window ≤ t - start) : (b.emptied t).Sliced os t := by
  refine sliced_of_empty rfl ?_ ?_ (hb.emptied t)
  · intro bk hbk
    obtain ⟨_, _, rfl⟩ := List.mem_map.mp hbk
    rfl
  · intro o ho
    rw [length_emptied]
    change o.time < t - (b.buckets.length - 1) * b.bucketDur
    have hlt := h.lt o ho
    have hspan := hb.span
    rw [hb.window_eq] at hwindow
    linarith

theorem Sliced.turned (hb : b.Spans pol) (h : b.Sliced os start) (hle : start ≤ t) :
    (advanceBuckets ((t - start) / b.bucketDur).toNat b).Spans pol ∧
      ∃ start', (advanceBuckets ((t - start) / b.bucketDur).toNat b).Sliced os start' ∧
        start' ≤ t ∧
        t < start' + (advanceBuckets ((t - start) / b.bucketDur).toNat b).bucketDur := by
  have hpos := hb.dur_pos
  have hn : (((t - start) / b.bucketDur).toNat : ℤ) = (t - start) / b.bucketDur :=
    Int.toNat_of_nonneg (Int.ediv_nonneg (sub_nonneg.mpr hle) hpos.le)
  obtain ⟨hspans, hnew⟩ := advanceBuckets_sliced ((t - start) / b.bucketDur).toNat hb h
  have hdur := (advanceBuckets_frame ((t - start) / b.bucketDur).toNat b).2.1
  have hdiv := Int.mul_ediv_add_emod (t - start) b.bucketDur
  have hlo := Int.emod_nonneg (t - start) hpos.ne'
  have hhi := Int.emod_lt_of_pos (t - start) hpos
  rw [hn] at hnew
  refine ⟨hspans, _, hnew, ?_, ?_⟩
  · linarith
  · rw [hdur]
    linarith

theorem Counts.advanceLocked {clock : Time} (h : b.Counts pol os clock) (hle : clock ≤ t) :
    (b.advanceLocked t).Spans pol ∧ ∃ start, (b.advanceLocked t).Sliced os start ∧ start ≤ t ∧
      t < start + (b.advanceLocked t).bucketDur := by
  have hpos := h.spans.dur_pos
  unfold Breaker.advanceLocked
  rcases hs : b.headStart with _ | start
  · -- the window starts with this outcome
    obtain ⟨rfl, hempty⟩ := h.idle hs
    have hb : ({ b with headStart := some t } : Breaker).Spans pol :=
      ⟨h.spans.window_eq, h.spans.dur_eq, h.spans.length_eq, h.spans.head_lt⟩
    exact ⟨hb, t, sliced_of_empty rfl hempty (by simp) hb, le_rfl, lt_add_of_pos_right t hpos⟩
  · have hsl := h.sliced start hs
    dsimp only
    split_ifs with hwindow
    · exact ⟨h.spans.emptied t, t, hsl.emptied h.spans hwindow, le_rfl,
        lt_add_of_pos_right t hpos⟩
    · exact hsl.turned h.spans ((h.le_clock start hs).trans hle)

theorem Sliced.count (hb : b.Spans pol) (h : b.Sliced os start) (hlo : start ≤ t)
    (hhi : t < start + b.bucketDur) (ok : Bool) :
    (b.count ok).Spans pol ∧ (b.count ok).Sliced (os ++ [⟨t, ok⟩]) start := by
  have hpos := hb.dur_pos
  have hlen : (b.count ok).buckets.length = b.buckets.length := List.length_modify _ _ _
  refine ⟨⟨hb.window_eq, hb.dur_eq, hlen.symm ▸ hb.length_eq, hlen.symm ▸ hb.head_lt⟩,
    h.headStart, fun o ho => ?_, ?_⟩
  · rcases List.mem_append.mp ho with ho | ho
    · exact h.lt o ho
    · rw [List.mem_singleton.mp ho]
      exact hhi
  · obtain ⟨n, hn⟩ : ∃ n, b.buckets.length = n + 1 :=
      Nat.exists_eq_succ_of_ne_zero (Nat.zero_lt_of_lt hb.head_lt).ne'
    have hprev := fun os =>
      slices_advance (tallyIn os b.bucketDur) (start - b.bucketDur) b.bucketDur n
    simp only [sub_add_cancel] at hprev
    have hold :
        slices (tallyIn (os ++ [⟨t, ok⟩]) b.bucketDur) (start - b.bucketDur) b.bucketDur n =
          slices (tallyIn os b.bucketDur) (start - b.bucketDur) b.bucketDur n :=
      slices_concat os hpos.le hlo n
    obtain ⟨q, x, hq, hq'⟩ := queue_modify hb.head_lt fun bk : Bucket =>
      if ok then { bk with ok := bk.ok + 1 } else { bk with fail := bk.fail + 1 }
    have hqueue := h.queue_eq
    rw [hn, hprev, hq] at hqueue
    obtain ⟨rfl, hx⟩ := List.append_inj' hqueue rfl
    obtain rfl : x = tallyIn os b.bucketDur start := by simpa using hx
    change queue (b.buckets.modify b.headIdx _) b.headIdx =
      slices (tallyIn _ b.bucketDur) start b.bucketDur _
    rw [hlen, hn, hprev, hold, hq', tallyIn_concat hlo hhi]

theorem Sliced.total (hb : b.Spans pol) (h : b.Sliced os start) {g : Bucket → ℕ}
    {p : Outcome → Bool} (hg : ∀ l, g (tally l) = (l.filter p).length) :
    (b.buckets.map g).sum =
      ((os.filter fun o => start + b.bucketDur - b.buckets.length * b.bucketDur ≤ o.time).filter
        p).length := by
  rw [← sum_slices hg hb.dur_pos.le h.lt, ← h.queue_eq]
  exact ((queue_perm _ _).map g).sum_eq.symm

theorem Counts.mono {clock : Time} (h : b.Counts pol os clock) (hle : clock ≤ t) :
    b.Counts pol os t where
  spans := h.spans
  le_clock start hs := (h.le_clock start hs).trans hle
  idle := h.idle
  sliced := h.sliced

theorem Counts.allow {clock : Time} (h : b.Counts pol os clock) (now : Time) :
    (b.allow now).1.Counts pol os clock := by
  rcases b.allow_cases now with heq | ⟨-, heq⟩ | ⟨-, heq⟩ | ⟨-, -, heq⟩ <;> rw [heq]
  · exact h
  · exact h
  · exact ⟨⟨h.spans.window_eq, h.spans.dur_eq, h.spans.length_eq, h.spans.head_lt⟩, h.le_clock,
      h.idle, fun start hs => ⟨hs, (h.sliced start hs).lt, (h.sliced start hs).queue_eq⟩⟩
  · exact ⟨⟨h.spans.window_eq, h.spans.dur_eq, h.spans.length_eq, h.spans.head_lt⟩, h.le_clock,
      h.idle, fun start hs => ⟨hs, (h.sliced start hs).lt, (h.sliced start hs).queue_eq⟩⟩

/-- An outcome that closes the breaker: a success while it is not closed. -/
def closes (b : Breaker) (ok : Bool) : Bool := ok && b.state ≠ .closed

theorem record_ring (b : Breaker) (t : Time) {ok : Bool} (h : b.closes ok = false) :
    (b.record t ok).buckets = ((b.advanceLocked t).count ok).buckets ∧
      (b.record t ok).headIdx = (b.advanceLocked t).headIdx ∧
      (b.record t ok).headStart = (b.advanceLocked t).headStart ∧
      (b.record t ok).bucketDur = b.bucketDur ∧ (b.record t ok).pol = b.pol := by
  obtain ⟨hpol, hdur, hstate⟩ := b.advanceLocked_frame t
  unfold record
  cases ok with
  | true =>
    have hclosed : b.state = .closed := by simpa [closes] using h
    have hcount : ((b.advanceLocked t).count true).state = .closed := hstate.trans hclosed
    dsimp only
    rw [if_pos rfl, hcount, if_neg (by simp)]
    exact ⟨rfl, rfl, rfl, hdur, hpol⟩
  | false =>
    rw [if_neg Bool.false_ne_true]
    dsimp only
    split
    · exact ⟨rfl, rfl, rfl, hdur, hpol⟩
    · split_ifs
      · exact ⟨rfl, rfl, rfl, hdur, hpol⟩
      · exact ⟨rfl, rfl, rfl, hdur, hpol⟩
    · exact ⟨rfl, rfl, rfl, hdur, hpol⟩

theorem Counts.record {clock : Time} (h : b.Counts pol os clock) (hle : clock ≤ t) {ok : Bool}
    (hkeep : b.closes ok = false) :
    (b.record t ok).Spans pol ∧ ∃ start, (b.record t ok).Sliced (os ++ [⟨t, ok⟩]) start ∧
      start ≤ t ∧ t < start + b.bucketDur := by
  obtain ⟨hb, start, hsl, hlo, hhi⟩ := h.advanceLocked hle
  obtain ⟨hpol, hdur, -⟩ := b.advanceLocked_frame t
  obtain ⟨hspans, hsliced⟩ := hsl.count hb hlo hhi ok
  obtain ⟨hbuckets, hidx, hstart, hdur', hpol'⟩ := b.record_ring t hkeep
  refine ⟨⟨?_, ?_, ?_, ?_⟩, start, ⟨?_, ?_, ?_⟩, hlo, hdur ▸ hhi⟩
  · rw [hpol']
    exact h.spans.window_eq
  · rw [hdur']
    exact h.spans.dur_eq
  · rw [hbuckets]
    exact hspans.length_eq
  · rw [hbuckets, hidx]
    exact hspans.head_lt
  · rw [hstart]
    exact hsl.headStart
  · rw [hdur', ← hdur]
    exact hsliced.lt
  · rw [hbuckets, hidx, hdur', ← hdur]
    exact hsliced.queue_eq

theorem Counts.close {clock : Time} (h : b.Counts pol os clock) (hle : clock ≤ t) {ok : Bool}
    (hclose : b.closes ok = true) : (b.record t ok).Counts pol [] t := by
  obtain ⟨rfl, hopen⟩ : ok = true ∧ b.state ≠ .closed := by simpa [closes] using hclose
  obtain ⟨hb, start, hsl, hlo, hhi⟩ := h.advanceLocked hle
  obtain ⟨hspans, -⟩ := hsl.count hb hlo hhi true
  have hstate : ((b.advanceLocked t).count true).state ≠ .closed := by
    rw [show ((b.advanceLocked t).count true).state = b.state from (b.advanceLocked_frame t).2.2]
    exact hopen
  have hrecord :
      b.record t true = closeLocked { (b.advanceLocked t).count true with consec := 0 } := by
    unfold Breaker.record
    dsimp only
    rw [if_pos rfl, if_pos hstate]
  rw [hrecord]
  refine ⟨⟨hspans.window_eq, hspans.dur_eq, ?_, ?_⟩, fun _ hs => ?_,
    fun _ => ⟨rfl, fun bk hbk => ?_⟩, fun _ hs => ?_⟩
  · rw [closeLocked, List.length_map]
    exact hspans.length_eq
  · rw [closeLocked, List.length_map]
    exact hspans.head_lt
  · cases hs
  · obtain ⟨_, _, rfl⟩ := List.mem_map.mp hbk
    rfl
  · cases hs

end Breaker

/-- A breaker with the outcomes recorded since it last closed. -/
structure Recorded where
  breaker : Breaker
  outcomes : List Outcome := []

namespace Recorded

inductive Call where
  | allow (now : Time)
  | record (now : Time) (ok : Bool)

def Call.time : Call → Time
  | allow now => now
  | record now _ => now

def step (s : Recorded) : Call → Recorded
  | .allow now => { s with breaker := (s.breaker.allow now).1 }
  | .record now ok =>
    { breaker := s.breaker.record now ok
      outcomes := if s.breaker.closes ok then [] else s.outcomes ++ [⟨now, ok⟩] }

def after (pol : Policy) (calls : List Call) : Recorded :=
  calls.foldl step { breaker := newBreaker pol }

theorem after_concat (pol : Policy) (calls : List Call) (c : Call) :
    after pol (calls ++ [c]) = (after pol calls).step c := by
  rw [after, List.foldl_append]
  rfl

variable {pol : Policy} {calls : List Call} {t : Time} {ok : Bool}

theorem counts_after (hsorted : (calls.map Call.time).Pairwise (· ≤ ·)) {clock : Time}
    (hclock : ∀ c ∈ calls, c.time ≤ clock) :
    (after pol calls).breaker.Counts pol (after pol calls).outcomes clock := by
  induction calls using List.reverseRecOn generalizing clock with
  | nil => exact Breaker.counts_new pol clock
  | append_singleton calls c ih =>
    rw [List.map_append] at hsorted
    have hbefore := List.pairwise_append.mp hsorted
    have hprev : (after pol calls).breaker.Counts pol (after pol calls).outcomes c.time :=
      ih hbefore.1 fun c' hc' => hbefore.2.2 c'.time (List.mem_map_of_mem hc') c.time (by simp)
    have hle : c.time ≤ clock := hclock c (by simp)
    rw [after_concat]
    cases c with
    | allow now => exact (hprev.allow now).mono hle
    | record now ok =>
      simp only [step]
      cases hclose : (after pol calls).breaker.closes ok with
      | true => exact (hprev.close le_rfl hclose).mono hle
      | false =>
        obtain ⟨hb, start, hsl, hlo, -⟩ := hprev.record le_rfl hclose
        exact hsl.counts hb (hlo.trans hle)

/-- Right after an outcome that does not close the breaker its totals count the outcomes since it
last closed from some time on: every one younger than all slices but one, and none as old as the
window. -/
theorem record_totals (pol : Policy) (calls : List Call) (t : Time) (ok : Bool)
    (hclock : ((calls ++ [Call.record t ok]).map Call.time).Pairwise (· ≤ ·))
    (hkeep : (after pol calls).breaker.closes ok = false) :
    let s := after pol (calls ++ [.record t ok])
    ∃ cut : Time,
      (∀ o ∈ s.outcomes, t - o.time < (max pol.buckets 1 - 1) * s.breaker.bucketDur →
        cut ≤ o.time) ∧
      (∀ o ∈ s.outcomes, pol.window ≤ t - o.time → o.time < cut) ∧
      (s.breaker.buckets.map Bucket.ok).sum =
        ((s.outcomes.filter fun o => cut ≤ o.time).filter fun o => o.ok).length ∧
      (s.breaker.buckets.map Bucket.fail).sum =
        ((s.outcomes.filter fun o => cut ≤ o.time).filter fun o => !o.ok).length := by
  rw [List.map_append] at hclock
  have hbefore := List.pairwise_append.mp hclock
  have hprev : (after pol calls).breaker.Counts pol (after pol calls).outcomes t :=
    counts_after hbefore.1 fun c hc =>
      hbefore.2.2 c.time (List.mem_map_of_mem hc) t (by simp [Call.time])
  obtain ⟨hb, start, hsl, hlo, hhi⟩ := hprev.record le_rfl hkeep
  have hdur := ((after pol calls).breaker.record_ring t hkeep).2.2.2.1
  have hpos := hb.dur_pos
  have hspan := hb.span
  have hlen := hb.length_eq
  rw [after_concat]
  simp only [step, hkeep, Bool.false_eq_true, if_false]
  rw [← hdur] at hhi
  generalize (after pol calls).breaker.record t ok = b at *
  refine ⟨start + b.bucketDur - b.buckets.length * b.bucketDur, fun o _ hage => ?_,
    fun o _ hage => ?_, hsl.total hb fun _ => rfl, hsl.total hb fun _ => rfl⟩
  · rw [hlen]
    linarith
  · linarith

theorem record_totals_default :
    let calls := [Call.record second false, .allow (2 * second), .record (3 * second) true]
    (calls.map Call.time).Pairwise (· ≤ ·) ∧
      ((after defaultPolicy calls).breaker.buckets.map Bucket.fail).sum = 1 ∧
      ∃ cut : Time, cut ≤ second ∧
        (((after defaultPolicy calls).outcomes.filter fun o => cut ≤ o.time).filter fun o =>
          !o.ok).length = 1 := by
  have hclock : ([Call.record second false, .allow (2 * second), .record (3 * second) true].map
      Call.time).Pairwise (· ≤ ·) := by decide
  obtain ⟨cut, hyoung, -, -, hfail⟩ := record_totals defaultPolicy
    [.record second false, .allow (2 * second)] (3 * second) true hclock (by decide +kernel)
  refine ⟨hclock, by decide +kernel, cut, ?_, ?_⟩
  · exact hyoung ⟨second, false⟩ (by decide +kernel) (by decide +kernel)
  · exact hfail.symm.trans (by decide +kernel)

end Recorded

end SplitDNS.Forwarder
