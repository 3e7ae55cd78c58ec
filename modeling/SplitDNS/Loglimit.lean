import Mathlib.Algebra.GroupWithZero.Nat
import Mathlib.Algebra.Order.BigOperators.Group.List
import Mathlib.Algebra.Order.Group.Nat
import SplitDNS.Go.MapSize
import SplitDNS.Go.Strings
import SplitDNS.Runs.Basic

/-! # Rate limits of log messages

A handler lets one record of each type through in an interval and counts the
ones it drops. The table of types is bounded: when a new type finds it full, the
idle types are dropped, or all of them if that does not help, and the counts of
the dropped types are lost.
-/

namespace SplitDNS.Loglimit

open Go Go.Strings

structure Attr where
  key : Str
  value : Str
  deriving DecidableEq

/-- A record of `slog` without its time, the level and the values as they are printed. -/
structure Record where
  level : Str
  message : Str
  attrs : List Attr
  deriving DecidableEq

structure Entry where
  emitted : Bool := false
  lastEmit : Time := zeroTime
  lastSeen : Time := zeroTime
  suppressed : ℕ := 0
  deriving DecidableEq

abbrev Seen := Map Str Entry

def defaultMaxKeys : ℕ := 2048

/-- The fields of a handler that its derived handlers share. -/
structure Limits where
  every : Duration
  max : ℕ

def Limits.new (every : Duration) (maxKeys : ℤ) : Limits :=
  ⟨every, if maxKeys ≤ 0 then defaultMaxKeys else maxKeys.toNat⟩

def writeAttr (a : Attr) : Str := Char.ofNat 0x1f :: a.key ++ '=' :: a.value

def key (preset : Str) (r : Record) : Str :=
  r.level ++ Char.ofNat 0x1f :: r.message ++ preset ++ r.attrs.flatMap writeAttr

variable (lim : Limits) (seen : Seen) (k : Str) (now : Time)

/-- The first loop of `evictLocked`. -/
def dropIdle : Seen := seen.deleteIf fun _ e => lim.every ≤ now - e.lastSeen

def IsFull : Prop := k ∉ seen ∧ lim.max ≤ seen.entries.length

instance : Decidable (IsFull lim seen k) := inferInstanceAs (Decidable (_ ∧ _))

/-- What the call leaves of the table it finds, before it enters its own type. -/
def evicted : Seen := if IsFull lim seen k then dropIdle lim seen now else seen

/-- The call takes a new table, as the one it finds is full of types that are not idle. -/
def Resets : Prop := IsFull lim seen k ∧ lim.max ≤ (dropIdle lim seen now).entries.length

instance : Decidable (Resets lim seen k now) := inferInstanceAs (Decidable (_ ∧ _))

def room : Seen := if Resets lim seen k now then ∅ else evicted lim seen k now

/-- The update of the entry of a type, with the count that the record is emitted with. -/
def mark (every : Duration) : Seen × Option ℕ :=
  let e : Entry := { (seen.lookup k).getD {} with lastSeen := now }
  if e.emitted ∧ now - e.lastEmit < every then
    (seen.insert k { e with suppressed := e.suppressed + 1 }, none)
  else (seen.insert k { e with suppressed := 0, emitted := true, lastEmit := now },
    some e.suppressed)

/-- A record passed to the inner handler, with the count it carries. -/
structure Emission where
  record : Record
  suppressed : ℕ
  deriving DecidableEq

def emit (r : Record) (n : ℕ) : Emission where
  record :=
    if 0 < n then { r with attrs := r.attrs ++ [⟨"suppressed".toList, formatUint n⟩] } else r
  suppressed := n

structure Handler where
  limits : Limits
  preset : Str
  seen : Seen

def Handler.new (every : Duration) (maxKeys : ℤ) (preset : Str) : Handler :=
  ⟨.new every maxKeys, preset, ∅⟩

def Handler.handle (h : Handler) (r : Record) (now : Time) : Handler × Option Emission :=
  if h.limits.every ≤ 0 then (h, some (emit r 0))
  else
    let k := key h.preset r
    let marked := mark (room h.limits h.seen k now) k now h.limits.every
    ({ h with seen := marked.1 }, marked.2.map (emit r))

section Tables

variable {lim seen k now} {k' : Str} {every : Duration}

theorem lookup_dropIdle :
    (dropIdle lim seen now).lookup k' =
      (seen.lookup k').filter fun e => !decide (lim.every ≤ now - e.lastSeen) :=
  Map.lookup_deleteIf _ _ _

theorem lookup_mark_of_ne (h : k' ≠ k) : (mark seen k now every).1.lookup k' = seen.lookup k' := by
  rw [mark]
  split_ifs
  · exact AList.lookup_insert_ne h
  · exact AList.lookup_insert_ne h

/-- A call either finds the type emitted within the interval and counts, or emits and starts
again. -/
theorem mark_cases (every : Duration) (seen : Seen) (k : Str) (now : Time) :
    (∃ e, seen.lookup k = some e ∧ e.emitted = true ∧ now - e.lastEmit < every ∧
      mark seen k now every =
        (seen.insert k { e with lastSeen := now, suppressed := e.suppressed + 1 }, none)) ∨
    ((∀ e, seen.lookup k = some e → e.emitted = true → every ≤ now - e.lastEmit) ∧
      mark seen k now every =
        (seen.insert k ⟨true, now, now, 0⟩, some ((seen.lookup k).getD {}).suppressed)) := by
  rcases hk : seen.lookup k with _ | e
  · refine Or.inr ⟨fun e he => (by cases he), ?_⟩
    rw [mark, hk]
    exact if_neg fun h => Bool.false_ne_true h.1
  · by_cases hrecent : e.emitted = true ∧ now - e.lastEmit < every
    · refine Or.inl ⟨e, rfl, hrecent.1, hrecent.2, ?_⟩
      rw [mark, hk]
      exact if_pos hrecent
    · refine Or.inr ⟨?_, ?_⟩
      · rintro _ ⟨⟩ hemitted
        exact not_lt.mp fun hlt => hrecent ⟨hemitted, hlt⟩
      · rw [mark, hk]
        exact if_neg hrecent

theorem lookup_room (h : (room lim seen k now).lookup k' ≠ none) :
    (room lim seen k now).lookup k' = seen.lookup k' := by
  unfold room evicted at *
  split_ifs at * with hreset hfull
  · exact absurd rfl h
  · rw [lookup_dropIdle] at h ⊢
    rcases hk : seen.lookup k' with _ | e
    · rfl
    · rw [hk] at h
      cases hidle : !decide (lim.every ≤ now - e.lastSeen) with
      | true => exact Option.filter_eq_some_iff.mpr ⟨rfl, hidle⟩
      | false =>
        refine absurd (Option.filter_eq_none_iff.mpr ?_) h
        rintro _ ⟨⟩
        simp [hidle]
  · rfl

theorem lookup_room_eq_none_iff {e : Entry} (he : seen.lookup k' = some e) :
    (room lim seen k now).lookup k' = none ↔
      IsFull lim seen k ∧ (lim.every ≤ now - e.lastSeen ∨
        lim.max ≤ (dropIdle lim seen now).entries.length) := by
  unfold room evicted
  split_ifs with hreset hfull
  · exact ⟨fun _ => ⟨hreset.1, Or.inr hreset.2⟩, fun _ => rfl⟩
  · rw [lookup_dropIdle, he, Option.filter_eq_none_iff]
    have hmax : ¬ lim.max ≤ (dropIdle lim seen now).entries.length := fun h => hreset ⟨hfull, h⟩
    simp [hfull, hmax]
  · simp [he, hfull]

end Tables

/-! ## Counts of dropped records -/

def held (seen : Seen) (k : Str) : ℕ := ((seen.lookup k).map Entry.suppressed).getD 0

structure Call where
  key : Str
  emission : Option Emission

def handled (calls : List Call) (k : Str) : ℕ := (calls.filter (·.key = k)).length

def emitted (calls : List Call) (k : Str) : ℕ :=
  (calls.filter fun c => c.key = k ∧ c.emission.isSome).length

def attached (calls : List Call) (k : Str) : ℕ :=
  ((calls.filter (·.key = k)).map fun c => (c.emission.map Emission.suppressed).getD 0).sum

structure Used where
  handler : Handler
  calls : List Call

def Used.Balanced (s : Used) (k : Str) : Prop :=
  handled s.calls k = emitted s.calls k + attached s.calls k + held s.handler.seen k

def Used.step (s : Used) (call : Record × Time) : Used :=
  let handled := s.handler.handle call.1 call.2
  ⟨handled.1, s.calls ++ [⟨key s.handler.preset call.1, handled.2⟩]⟩

/-- The call drops an entry of the type that holds a count: a new type finds the table full, and
the entry is idle or the types that are not idle still fill the table. -/
def Loses (h : Handler) (call : Record × Time) (k : Str) : Prop :=
  0 < h.limits.every ∧ IsFull h.limits h.seen (key h.preset call.1) ∧
    ∃ e, h.seen.lookup k = some e ∧ 0 < e.suppressed ∧
      (h.limits.every ≤ call.2 - e.lastSeen ∨
        h.limits.max ≤ (dropIdle h.limits h.seen call.2).entries.length)

def lost (h : Handler) (call : Record × Time) (k : Str) : ℕ :=
  if h.limits.every ≤ 0 then 0
  else held h.seen k - held (room h.limits h.seen (key h.preset call.1) call.2) k

section Counts

variable {calls : List Call} {c : Call} {k : Str}

theorem handled_concat :
    handled (calls ++ [c]) k = handled calls k + if c.key = k then 1 else 0 := by
  rw [handled, List.filter_append, List.length_append]
  by_cases hk : c.key = k <;> simp [handled, hk]

theorem emitted_add_attached_concat :
    emitted (calls ++ [c]) k + attached (calls ++ [c]) k =
      emitted calls k + attached calls k +
        if c.key = k then c.emission.elim 0 (·.suppressed + 1) else 0 := by
  rw [emitted, attached, List.filter_append, List.filter_append, List.length_append,
    List.map_append, List.sum_append]
  by_cases hk : c.key = k
  · rcases hc : c.emission with _ | e
    · simp [emitted, attached, hk, hc]
    · simp [emitted, attached, hk, hc]
      omega
  · simp [emitted, attached, hk]

theorem held_room_le {lim : Limits} {seen : Seen} {key : Str} {now : Time} :
    held (room lim seen key now) k ≤ held seen k := by
  by_cases h : (room lim seen key now).lookup k = none
  · rw [held, h]
    exact Nat.zero_le _
  · rw [held, lookup_room h]
    exact le_rfl

theorem lost_ne_zero_iff {h : Handler} {call : Record × Time} :
    lost h call k ≠ 0 ↔ Loses h call k := by
  unfold lost Loses
  split_ifs with hevery
  · simp [not_lt.mpr hevery]
  · rcases hk : h.seen.lookup k with _ | e
    · have hnone : held h.seen k = 0 := by rw [held, hk]; rfl
      simp [hnone]
    · have hsome : held h.seen k = e.suppressed := by rw [held, hk]; rfl
      have hiff := @lookup_room_eq_none_iff h.limits h.seen (key h.preset call.1) call.2 k e hk
      rw [hsome]
      by_cases hroom : (room h.limits h.seen (key h.preset call.1) call.2).lookup k = none
      · have hzero : held (room h.limits h.seen (key h.preset call.1) call.2) k = 0 := by
          rw [held, hroom]
          rfl
        obtain ⟨hfull, hdrop⟩ := hiff.mp hroom
        rw [hzero]
        simp [not_le.mp hevery, hfull, hdrop, Nat.pos_iff_ne_zero]
      · have hsame : held (room h.limits h.seen (key h.preset call.1) call.2) k = e.suppressed := by
          rw [held, lookup_room hroom, hk]
          rfl
        rw [hsame, Nat.sub_self]
        refine iff_of_false (fun h => h rfl) ?_
        rintro ⟨-, hfull, _, ⟨⟩, -, hdrop⟩
        exact hroom (hiff.mpr ⟨hfull, hdrop⟩)

theorem held_mark (seen : Seen) (key : Str) (now : Time) (every : Duration) (k : Str) :
    held seen k + (if key = k then 1 else 0) =
      held (mark seen key now every).1 k +
        if key = k then (mark seen key now every).2.elim 0 (· + 1) else 0 := by
  by_cases hk : key = k
  · subst hk
    rw [if_pos rfl, if_pos rfl]
    rcases mark_cases every seen key now with ⟨e, he, -, -, hmark⟩ | ⟨-, hmark⟩
    · rw [hmark, held, held, he, AList.lookup_insert]
      rfl
    · rw [hmark, held, held, AList.lookup_insert]
      rcases seen.lookup key with _ | e
      · rfl
      · exact (Nat.zero_add _).symm
  · rw [if_neg hk, if_neg hk, held, held, lookup_mark_of_ne (Ne.symm hk)]

theorem held_handle (h : Handler) (call : Record × Time) (k : Str) :
    held h.seen k + (if key h.preset call.1 = k then 1 else 0) =
      held (h.handle call.1 call.2).1.seen k +
        (if key h.preset call.1 = k then
          (h.handle call.1 call.2).2.elim 0 (·.suppressed + 1) else 0) +
        lost h call k := by
  rw [Handler.handle, lost]
  by_cases hevery : h.limits.every ≤ 0
  · simp only [if_pos hevery]
    rfl
  · simp only [if_neg hevery]
    have hmark := held_mark (room h.limits h.seen (key h.preset call.1) call.2)
      (key h.preset call.1) call.2 h.limits.every k
    have hle := @held_room_le k h.limits h.seen (key h.preset call.1) call.2
    have helim : ∀ o : Option ℕ,
        (o.map (emit call.1)).elim 0 (·.suppressed + 1) = o.elim 0 (· + 1) := by
      rintro (_ | n) <;> rfl
    rw [helim]
    omega

/-- The records of a type are those emitted, those counted in what was emitted, those counted in
the table, and those whose count was dropped. -/
theorem handled_run (h : Handler) (es : List (Record × Time)) (k : Str) :
    let s := es.foldl Used.step ⟨h, []⟩
    handled s.calls k + held h.seen k = emitted s.calls k + attached s.calls k +
      held s.handler.seen k +
        ((Runs.trace Used.step ⟨h, []⟩ es).map fun p => lost p.1.handler p.2 k).sum := by
  induction es using List.reverseRecOn with
  | nil =>
    simp [Runs.trace, handled, emitted, attached]
  | append_singleton es call ih =>
    simp only [List.foldl_append, List.foldl_cons, List.foldl_nil, Runs.trace_concat,
      List.map_append, List.sum_append, List.map_cons, List.map_nil, List.sum_singleton] at ih ⊢
    generalize es.foldl Used.step ⟨h, []⟩ = s at ih ⊢
    have hheld := held_handle s.handler call k
    have hcalls : (s.step call).calls =
        s.calls ++ [⟨key s.handler.preset call.1, (s.handler.handle call.1 call.2).2⟩] := rfl
    have hseen : (s.step call).handler = (s.handler.handle call.1 call.2).1 := rfl
    rw [hcalls, hseen, handled_concat, emitted_add_attached_concat]
    dsimp only
    omega

/-- Every record of a type is accounted for after a run exactly if no call of the run drops an
entry of the type that holds a count. -/
theorem handled_eq_iff (every : Duration) (maxKeys : ℤ) (preset : Str) (es : List (Record × Time))
    (k : Str) :
    (es.foldl Used.step ⟨.new every maxKeys preset, []⟩).Balanced k ↔
      Runs.Always Used.step ⟨.new every maxKeys preset, []⟩
        (fun _ s call => ¬ Loses s.handler call k) es := by
  have hrun := handled_run (.new every maxKeys preset) es k
  have hempty : held (Handler.new every maxKeys preset).seen k = 0 := rfl
  simp only [hempty, Nat.add_zero] at hrun
  rw [Used.Balanced, hrun, Nat.add_eq_left, List.sum_eq_zero_iff, List.forall_mem_map,
    Runs.always_iff_forall_mem_trace]
  simp only [← lost_ne_zero_iff, not_not]

/-- A record that was dropped is forgotten when a second type finds the table full. -/
theorem handled_ne_evicted :
    ¬ ([(⟨"WARN".toList, "a".toList, []⟩, 0), (⟨"WARN".toList, "a".toList, []⟩, 1),
        (⟨"WARN".toList, "b".toList, []⟩, 11)].foldl Used.step ⟨.new 10 1 [], []⟩).Balanced
      (key [] ⟨"WARN".toList, "a".toList, []⟩) := by
  unfold Used.Balanced
  decide

end Counts

end SplitDNS.Loglimit
