import SplitDNS.DDNS.Writer
import SplitDNS.MDNS.OnDemand

/-! # The two rate limits

The bucket of on-demand resolution and the one of the update writer differ in how
they start, in how they cap and in what they keep. Both meter the same vessel:
full at first, filled at their rate up to their burst.
-/

namespace SplitDNS

open Go Tokens

/-- The calls granted in any interval are no more than the burst and the refill in it, and a call
is refused only when less than a token is left. -/
structure Metered {S : Type*} (l : Limit ℚ) (allow : S → Time → S × Bool) (s : S)
    (calls : List Time) : Prop where
  window_le : ∀ (a : Time) (T : Duration), 0 ≤ T →
    (((granted allow s calls).filter fun t => a ≤ t ∧ t ≤ a + T).length : ℚ) ≤
      l.burst + l.rate * seconds T
  refused : ∀ pre t, pre ++ [t] <+: calls → (allow (after allow s pre) t).2 = false →
    l.content ((granted allow s pre).reverse.map inSeconds) (inSeconds t) < 1

section Meters

variable {S : Type*} {l : Limit ℚ} {allow : S → Time → S × Bool} {level : S → ℚ → ℚ}
  {Good : S → Prop} {Reads : Time → Prop} {s : S} {calls : List Time}

theorem metered_of_isMeter (h : IsMeter l inSeconds allow level Good Reads) (start : Time)
    (hs : Good s)
    (hfull : ∀ u, inSeconds start ≤ u → level s u = l.burst) (hread : ∀ t ∈ calls, Reads t)
    (hstart : ∀ t ∈ calls, start ≤ t) (hsorted : calls.Pairwise (· ≤ ·)) :
    Metered l allow s calls where
  window_le a T hT := by
    have hab : inSeconds a ≤ inSeconds (a + T) := inSeconds_le.mpr (le_add_of_nonneg_right hT)
    have hwindow := h.window_le hs hfull hread (fun t ht => inSeconds_le.mpr (hstart t ht))
      (hsorted.imp inSeconds_le.mpr) hab
    simp only [inSeconds_le] at hwindow
    rwa [← seconds_sub, add_sub_cancel_left] at hwindow
  refused pre t hpre hno := by
    have hmem : ∀ t' ∈ pre ++ [t], t' ∈ calls := fun t' ht' => hpre.subset ht'
    have hiff := h.granted_iff_content hs hfull (fun t' ht' => hread t' (hmem t' ht'))
      (fun t' ht' => inSeconds_le.mpr (hstart t' (hmem t' ht')))
      ((hsorted.sublist hpre.sublist).imp inSeconds_le.mpr)
    rw [hno] at hiff
    exact lt_of_not_ge fun hle => Bool.false_ne_true (hiff.mpr hle)

end Meters

namespace DDNS.TokenBucket

variable {l : Limit ℚ} {per : Duration}

theorem mathMin_rat (x y : ℚ) : mathMin x y = min x y := by
  rw [mathMin, min_def_lt]
  exact if_congr decide_eq_true_iff rfl rfl

/-- The bucket has its limit, and its last call was after the zero time. -/
structure Fits (l : Limit ℚ) (per : Duration) (b : TokenBucket ℚ) : Prop where
  cap : b.cap = l.burst
  refillPer : b.refillPer = per
  last : b.last ≠ zeroTime

def level (l : Limit ℚ) (b : TokenBucket ℚ) (u : ℚ) : ℚ :=
  l.refill b.tokens (u - inSeconds b.last)

theorem allow_eq (hper : 0 < per) (hrate : l.rate = 1 / seconds per) {b : TokenBucket ℚ}
    (hb : b.Fits l per) (now : Time) :
    b.allow now =
      if 1 ≤ level l b (inSeconds now) then
        ({ b with tokens := level l b (inSeconds now) - 1, last := now }, true)
      else ({ b with tokens := level l b (inSeconds now), last := now }, false) := by
  have hlevel : mathMin b.cap
      (Float64.add b.tokens (Float64.div (seconds (now - b.last)) (seconds b.refillPer))) =
        level l b (inSeconds now) := by
    rw [mathMin_rat, hb.cap, hb.refillPer, level, Limit.refill, hrate, one_div_mul_eq_div,
      ← seconds_sub]
    rfl
  have hone : ∀ v : ℚ, Float64.le (Float64.ofInt 1) v = decide (1 ≤ v) := fun v => by
    simp [Float64.le, Float64.ofInt]
  have hsub : ∀ v : ℚ, Float64.sub v (Float64.ofInt 1) = v - 1 := fun v => by
    simp [Float64.sub, Float64.ofInt]
  unfold allow
  rw [if_neg (not_le.mpr (hb.refillPer ▸ hper))]
  simp only [ne_eq, hb.last, not_false_eq_true, if_true, hlevel, hone, hsub, decide_eq_true_eq]

theorem isMeter (hper : 0 < per) (hrate : l.rate = 1 / seconds per) :
    IsMeter l inSeconds (fun b now => allow b now) (level l) (Fits l per) (· ≠ zeroTime) where
  granted_iff b now hb _ := by
    rw [allow_eq hper hrate hb]
    split_ifs with h
    · exact iff_of_true rfl h
    · exact iff_of_false (by simp) h
  good b now hb hnow := by
    rw [allow_eq hper hrate hb]
    split_ifs
    · exact ⟨hb.cap, hb.refillPer, hnow⟩
    · exact ⟨hb.cap, hb.refillPer, hnow⟩
  level_after b now hb _ u _ := by
    rw [allow_eq hper hrate hb]
    rcases em (1 ≤ level l b (inSeconds now)) with h | h
    · rw [if_pos h]
      rfl
    · rw [if_neg h, if_neg Bool.false_ne_true, sub_zero]
      rfl

end DDNS.TokenBucket

theorem metered_odBucket (l : Limit ℚ) {calls : List Time} (hsorted : calls.Pairwise (· ≤ ·)) :
    Metered l (fun b now => MDNS.OdBucket.allow b now l.rate l.burst) {} calls := by
  rcases calls with _ | ⟨t, calls⟩
  · refine ⟨fun a T hT => ?_, fun pre t hpre => ?_⟩
    · have hgain : 0 ≤ l.rate * seconds T := mul_nonneg l.rate_nonneg (by
        rw [seconds_rat]
        exact div_nonneg (Int.cast_nonneg hT) (by norm_num))
      simpa [granted] using add_nonneg l.burst_nonneg hgain
    · simp at hpre
  · refine metered_of_isMeter (MDNS.OdBucket.isMeter l) t trivial (fun _ _ => rfl)
      (fun _ _ => trivial) (fun t' ht' => ?_) hsorted
    rcases List.mem_cons.mp ht' with rfl | ht'
    · exact le_rfl
    · exact List.rel_of_pairwise_cons hsorted ht'

theorem metered_tokenBucket {cfg : DDNS.Config} {start : Time} {b : DDNS.TokenBucket ℚ}
    (hstart : zeroTime < start) (hb : (DDNS.Writer.new cfg start).global = some b)
    {calls : List Time} (hsorted : (start :: calls).Pairwise (· ≤ ·)) :
    ∃ l : Limit ℚ, l.burst = b.cap ∧ l.rate = 1 / seconds b.refillPer ∧
      Metered l (fun b now => DDNS.TokenBucket.allow b now) b calls := by
  simp only [DDNS.Writer.new, Option.ite_none_right_eq_some, Option.some.injEq] at hb
  obtain ⟨hpos, rfl⟩ := hb
  obtain ⟨hburst, hper⟩ : 0 < cfg.globalBurst ∧ 0 < cfg.globalRefill := by simpa using hpos
  have hseconds : (0 : ℚ) < seconds cfg.globalRefill := by
    rw [seconds_rat]
    exact div_pos (Int.cast_pos.mpr hper) (by norm_num)
  have hlater : ∀ t ∈ calls, start ≤ t := fun t ht => List.rel_of_pairwise_cons hsorted ht
  let l : Limit ℚ :=
    { rate := 1 / seconds cfg.globalRefill
      burst := cfg.globalBurst
      rate_nonneg := one_div_nonneg.mpr hseconds.le
      burst_nonneg := Int.cast_nonneg hburst.le }
  refine ⟨l, rfl, rfl, metered_of_isMeter (DDNS.TokenBucket.isMeter hper rfl) start
    ⟨rfl, rfl, hstart.ne'⟩ (fun u hu => ?_) (fun t ht => ?_) hlater
    (List.pairwise_cons.mp hsorted).2⟩
  · exact Limit.refill_burst (sub_nonneg.mpr hu)
  · exact (hstart.trans_le (hlater t ht)).ne'

/-- Both buckets admit no more in an interval than their burst and their rate over it, and refuse
only when less than a token is left. -/
theorem buckets_metered :
    (∀ (l : Limit ℚ) (calls : List Time), calls.Pairwise (· ≤ ·) →
      Metered l (fun b now => MDNS.OdBucket.allow b now l.rate l.burst) {} calls) ∧
    ∀ (cfg : DDNS.Config) (start : Time) (b : DDNS.TokenBucket ℚ), zeroTime < start →
      (DDNS.Writer.new cfg start).global = some b →
      ∀ calls : List Time, (start :: calls).Pairwise (· ≤ ·) →
        ∃ l : Limit ℚ, l.burst = b.cap ∧ l.rate = 1 / seconds b.refillPer ∧
          Metered l (fun b now => DDNS.TokenBucket.allow b now) b calls :=
  ⟨fun l _ hsorted => metered_odBucket l hsorted,
    fun _ _ _ hstart hb _ hsorted => metered_tokenBucket hstart hb hsorted⟩

/-- The bucket of a writer with a burst of eight and a refill in ten minutes. -/
def writerBucket : DDNS.TokenBucket ℚ := ⟨8, 8, 600 * second, 0⟩

theorem buckets_metered_defaults :
    Metered MDNS.odGlobalLimit
      (fun b now => MDNS.OdBucket.allow b now MDNS.odGlobalLimit.rate MDNS.odGlobalLimit.burst) {}
      [0, 0, second] ∧
    ∃ l : Limit ℚ, l.burst = 8 ∧ l.rate = 1 / seconds (600 * second) ∧
      Metered l (fun b now => DDNS.TokenBucket.allow b now) writerBucket [0, 0, second] :=
  ⟨buckets_metered.1 MDNS.odGlobalLimit [0, 0, second] (by decide),
    buckets_metered.2 { globalBurst := 8, globalRefill := 600 * second } 0 writerBucket (by decide)
      rfl [0, 0, second] (by decide)⟩

end SplitDNS
