import Mathlib.Algebra.Order.Field.Basic
import Mathlib.Data.List.Induction
import Mathlib.Tactic.Linarith
import Mathlib.Tactic.Ring

/-! # Token buckets

A vessel that is full at first, is filled continuously at a rate up to its
capacity, and loses one token at each withdrawal. A meter decides call by call
whether a token is there. Whatever state it keeps, a meter that shows the level
of the vessel grants a call exactly when a whole token is left, and grants no
more calls in an interval than the capacity and the refill in that interval.
-/

namespace Tokens

structure Limit (K : Type*) [Field K] [LinearOrder K] where
  rate : K
  burst : K
  rate_nonneg : 0 ≤ rate
  burst_nonneg : 0 ≤ burst

namespace Limit

section Defs

variable {K : Type*} [Field K] [LinearOrder K] (l : Limit K)

def refill (v d : K) : K := min l.burst (v + l.rate * d)

/-- The level at a time after the withdrawals, of which the latest comes first. -/
def content : List K → K → K
  | [], _ => l.burst
  | w :: ws, t => l.refill (content ws w - 1) (t - w)

/-- Withdrawals in the order of time, each of a token that is there. -/
inductive Granted : List K → Prop where
  | nil : Granted []
  | cons {w : K} {ws : List K} : Granted ws → (∀ w' ∈ ws, w' ≤ w) → 1 ≤ l.content ws w →
      Granted (w :: ws)

theorem refill_le_burst (v d : K) : l.refill v d ≤ l.burst := min_le_left _ _

theorem refill_le (v d : K) : l.refill v d ≤ v + l.rate * d := min_le_right _ _

theorem content_le_burst (ws : List K) (t : K) : l.content ws t ≤ l.burst := by
  cases ws with
  | nil => exact le_rfl
  | cons w ws => exact l.refill_le_burst _ _

end Defs

variable {K : Type*} [Field K] [LinearOrder K] [IsStrictOrderedRing K] {l : Limit K} {ws : List K}
  {a b d t t' v : K}

theorem refill_burst (hd : 0 ≤ d) : l.refill l.burst d = l.burst :=
  min_eq_left (le_add_of_nonneg_right (mul_nonneg l.rate_nonneg hd))

theorem refill_nonneg (hv : 0 ≤ v) (hd : 0 ≤ d) : 0 ≤ l.refill v d :=
  le_min l.burst_nonneg (add_nonneg hv (mul_nonneg l.rate_nonneg hd))

/-- Refilling may pause: only the time in all counts. -/
theorem refill_refill (hd : 0 ≤ d) (c : K) : l.refill (l.refill v c) d = l.refill v (c + d) := by
  have hgain : 0 ≤ l.rate * d := mul_nonneg l.rate_nonneg hd
  unfold refill
  rw [min_add, ← min_assoc, min_eq_left (le_add_of_nonneg_right hgain), mul_add, add_assoc]

theorem content_refill (h : t ≤ t') : l.content ws t' = l.refill (l.content ws t) (t' - t) := by
  have hd : 0 ≤ t' - t := sub_nonneg.mpr h
  cases ws with
  | nil => exact (refill_burst hd).symm
  | cons w ws =>
    rw [content, content, refill_refill hd]
    congr 1
    ring

theorem Granted.content_nonneg (h : l.Granted ws) (ht : ∀ w ∈ ws, w ≤ t) :
    0 ≤ l.content ws t := by
  cases h with
  | nil => exact l.burst_nonneg
  | cons _ _ hw =>
    exact refill_nonneg (sub_nonneg.mpr hw) (sub_nonneg.mpr (ht _ List.mem_cons_self))

/-- The tokens withdrawn since some time and those still there came from the capacity and the
refill since then. -/
theorem Granted.count_add_content_le (h : l.Granted ws) (ht : ∀ w ∈ ws, w ≤ t) (ha : a ≤ t) :
    ((ws.filter (a ≤ ·)).length : K) + l.content ws t ≤ l.burst + l.rate * (t - a) := by
  induction h generalizing t with
  | nil =>
    have hgain : 0 ≤ l.rate * (t - a) := mul_nonneg l.rate_nonneg (sub_nonneg.mpr ha)
    simpa [content] using hgain
  | @cons w ws hws hlast hw ih =>
    rcases le_or_gt a w with haw | haw
    · have hprev := ih hlast haw
      have hdrop : l.content (w :: ws) t ≤ l.content ws w - 1 + l.rate * (t - w) :=
        l.refill_le _ _
      have hsplit : l.rate * (t - a) = l.rate * (w - a) + l.rate * (t - w) := by ring
      rw [List.filter_cons_of_pos (by simpa using haw), List.length_cons, Nat.cast_succ]
      linarith
    · -- the whole interval lies after the last withdrawal
      have hnone : (w :: ws).filter (a ≤ ·) = [] := by
        refine List.filter_eq_nil_iff.mpr fun w' hw' => ?_
        rcases List.mem_cons.mp hw' with rfl | hw'
        · simpa using haw
        · simpa using (hlast w' hw').trans_lt haw
      have hgain : 0 ≤ l.rate * (t - a) := mul_nonneg l.rate_nonneg (sub_nonneg.mpr ha)
      have hfull : l.content (w :: ws) t ≤ l.burst := l.content_le_burst _ _
      rw [hnone, List.length_nil, Nat.cast_zero]
      linarith

/-- No interval has more withdrawals than the capacity and the refill in it. -/
theorem Granted.window_le (h : l.Granted ws) (hab : a ≤ b) :
    ((ws.filter fun w => a ≤ w ∧ w ≤ b).length : K) ≤ l.burst + l.rate * (b - a) := by
  induction h with
  | nil =>
    have hgain : 0 ≤ l.rate * (b - a) := mul_nonneg l.rate_nonneg (sub_nonneg.mpr hab)
    simpa using add_nonneg l.burst_nonneg hgain
  | @cons w ws hws hlast hw ih =>
    rcases le_or_gt w b with hwb | hwb
    · have hall : ∀ w' ∈ w :: ws, w' ≤ b := by
        intro w' hw'
        rcases List.mem_cons.mp hw' with rfl | hw'
        · exact hwb
        · exact (hlast w' hw').trans hwb
      have hsame : ((w :: ws).filter fun w => a ≤ w ∧ w ≤ b) = (w :: ws).filter (a ≤ ·) :=
        List.filter_congr fun w' hw' => by simp [hall w' hw']
      have hgranted : l.Granted (w :: ws) := .cons hws hlast hw
      have hsum := hgranted.count_add_content_le hall hab
      have hleft := hgranted.content_nonneg hall
      rw [hsame]
      linarith
    · rw [List.filter_cons_of_neg (by simp [hwb])]
      exact ih

end Limit

section Meters

variable {K S T : Type*} [Field K] [LinearOrder K] [IsStrictOrderedRing K]

def after (allow : S → T → S × Bool) (s : S) (calls : List T) : S :=
  calls.foldl (fun s t => (allow s t).1) s

def granted (allow : S → T → S × Bool) : S → List T → List T
  | _, [] => []
  | s, t :: calls =>
    if (allow s t).2 then t :: granted allow (allow s t).1 calls
    else granted allow (allow s t).1 calls

variable {allow : S → T → S × Bool} {s : S} {calls : List T} {t : T}

theorem after_concat : after allow s (calls ++ [t]) = (allow (after allow s calls) t).1 := by
  rw [after, List.foldl_append]
  rfl

theorem granted_concat :
    granted allow s (calls ++ [t]) =
      granted allow s calls ++ if (allow (after allow s calls) t).2 then [t] else [] := by
  induction calls generalizing s with
  | nil => rfl
  | cons t' calls ih =>
    have hafter : after allow s (t' :: calls) = after allow (allow s t').1 calls := rfl
    rw [List.cons_append, granted, granted, ih, hafter]
    split_ifs <;> rfl

theorem granted_subset : ∀ t ∈ granted allow s calls, t ∈ calls := by
  induction calls generalizing s with
  | nil => exact fun t h => h
  | cons t calls ih =>
    intro t' h
    rw [granted] at h
    split_ifs at h with hgrant
    · rcases List.mem_cons.mp h with rfl | h
      · exact List.mem_cons_self
      · exact List.mem_cons_of_mem _ (ih t' h)
    · exact List.mem_cons_of_mem _ (ih t' h)

/-- A meter whose states show a level: a call is granted if the level is a token at least, which
it then takes, and the level rises with time between the calls. -/
structure IsMeter (l : Limit K) (at' : T → K) (allow : S → T → S × Bool) (level : S → K → K)
    (Good : S → Prop) (Reads : T → Prop) : Prop where
  granted_iff : ∀ s t, Good s → Reads t → ((allow s t).2 = true ↔ 1 ≤ level s (at' t))
  good : ∀ s t, Good s → Reads t → Good (allow s t).1
  level_after : ∀ s t, Good s → Reads t → ∀ u, at' t ≤ u → level (allow s t).1 u =
    l.refill (level s (at' t) - if (allow s t).2 then 1 else 0) (u - at' t)

variable {l : Limit K} {at' : T → K} {level : S → K → K} {Good : S → Prop} {Reads : T → Prop}

/-- A call at a meter that shows the level of the vessel leaves it showing the level. -/
theorem IsMeter.shows_after (h : IsMeter l at' allow level Good Reads) {ws : List K} (hs : Good s)
    (ht : Reads t) (hshow : level s (at' t) = l.content ws (at' t)) {u : K} (hu : at' t ≤ u) :
    level (allow s t).1 u = l.content (if (allow s t).2 then at' t :: ws else ws) u := by
  rw [h.level_after s t hs ht u hu, hshow]
  cases (allow s t).2 with
  | true => rfl
  | false =>
    rw [if_neg Bool.false_ne_true, if_neg Bool.false_ne_true, sub_zero, ← Limit.content_refill hu]

/-- A meter that starts full follows the vessel through any calls in the order of time. -/
theorem IsMeter.shows (h : IsMeter l at' allow level Good Reads) (hs : Good s) {start : K}
    (hfull : ∀ u, start ≤ u → level s u = l.burst) (hread : ∀ t ∈ calls, Reads t)
    (hstart : ∀ t ∈ calls, start ≤ at' t) (hsorted : calls.Pairwise fun t t' => at' t ≤ at' t') :
    Good (after allow s calls) ∧ l.Granted ((granted allow s calls).reverse.map at') ∧
      ∀ u, start ≤ u → (∀ t ∈ calls, at' t ≤ u) →
        level (after allow s calls) u = l.content ((granted allow s calls).reverse.map at') u := by
  induction calls using List.reverseRecOn with
  | nil => exact ⟨hs, .nil, fun u hu _ => hfull u hu⟩
  | append_singleton calls t ih =>
    have hbefore := List.pairwise_append.mp hsorted
    have hlast : ∀ t' ∈ calls, at' t' ≤ at' t := fun t' ht' => hbefore.2.2 t' ht' t (by simp)
    have hreadt : Reads t := hread t (by simp)
    obtain ⟨hgood, hgrant, hshow⟩ := ih (fun t' ht' => hread t' (List.mem_append_left _ ht'))
      (fun t' ht' => hstart t' (List.mem_append_left _ ht')) hbefore.1
    have hnow := hshow (at' t) (hstart t (by simp)) hlast
    have hlog : (granted allow s (calls ++ [t])).reverse.map at' =
        if (allow (after allow s calls) t).2 then
          at' t :: (granted allow s calls).reverse.map at'
        else (granted allow s calls).reverse.map at' := by
      rw [granted_concat, List.reverse_append]
      split_ifs <;> rfl
    rw [after_concat, hlog]
    refine ⟨h.good _ t hgood hreadt, ?_, fun u _ hu =>
      h.shows_after hgood hreadt hnow (hu t (by simp))⟩
    split_ifs with hyes
    · refine .cons hgrant (fun w hw => ?_) ?_
      · obtain ⟨t', ht', rfl⟩ := List.mem_map.mp hw
        exact hlast t' (granted_subset t' (List.mem_reverse.mp ht'))
      · rw [← hnow]
        exact (h.granted_iff _ t hgood hreadt).mp hyes
    · exact hgrant

/-- The calls granted in an interval are no more than the capacity and the refill in it. -/
theorem IsMeter.window_le (h : IsMeter l at' allow level Good Reads) (hs : Good s) {start : K}
    (hfull : ∀ u, start ≤ u → level s u = l.burst) (hread : ∀ t ∈ calls, Reads t)
    (hstart : ∀ t ∈ calls, start ≤ at' t) (hsorted : calls.Pairwise fun t t' => at' t ≤ at' t')
    {a b : K} (hab : a ≤ b) :
    (((granted allow s calls).filter fun t => a ≤ at' t ∧ at' t ≤ b).length : K) ≤
      l.burst + l.rate * (b - a) := by
  have hwindow := (h.shows hs hfull hread hstart hsorted).2.1.window_le hab
  rwa [List.filter_map, List.length_map, List.filter_reverse, List.length_reverse] at hwindow

/-- A call is granted exactly when a whole token is there. -/
theorem IsMeter.granted_iff_content (h : IsMeter l at' allow level Good Reads) (hs : Good s)
    {start : K} (hfull : ∀ u, start ≤ u → level s u = l.burst)
    (hread : ∀ t' ∈ calls ++ [t], Reads t') (hstart : ∀ t' ∈ calls ++ [t], start ≤ at' t')
    (hsorted : (calls ++ [t]).Pairwise fun t t' => at' t ≤ at' t') :
    (allow (after allow s calls) t).2 = true ↔
      1 ≤ l.content ((granted allow s calls).reverse.map at') (at' t) := by
  have hbefore := List.pairwise_append.mp hsorted
  obtain ⟨hgood, -, hshow⟩ := h.shows hs hfull (fun t' ht' => hread t' (List.mem_append_left _ ht'))
    (fun t' ht' => hstart t' (List.mem_append_left _ ht')) hbefore.1
  rw [h.granted_iff _ t hgood (hread t (by simp)),
    hshow _ (hstart t (by simp)) fun t' ht' => hbefore.2.2 t' ht' t (by simp)]

end Meters

end Tokens
