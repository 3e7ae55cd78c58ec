import SplitDNS.Anscache.Lru

/-! # The lifetime that is served

A fresh answer is served with the lifetimes of its records reduced by its age.
The lifetime the entry itself is kept for is clamped, and of a negative answer it
is also bounded by the minimum of the zone, which is served as it came. So what a
downstream cache takes from the message may outlast the entry.
-/

namespace SplitDNS.Anscache

open Go Dns

/-- The lifetime that a downstream cache takes from a message. -/
def downstreamTTL (kind : Kind) (msg : Msg) : Duration :=
  match kind with
  | .positive => minTTL msg.answer
  | .negative => (msg.question.head?.bind fun q => findSOA msg.ns q.name).elim 0 soaTTL

/-- What is left of a lifetime after some whole seconds, one second at least. -/
def remaining (ttl : Duration) (seconds : ℤ) : Duration := max second (ttl - seconds * second)

/-- A record that is served for no longer than is left of the entry: it has run down to its last
second, or the entry is kept for as long as the record lasts. The seconds are counted modulo
`2 ^ 32`, and the last count before it starts again adds one to the lifetime. -/
def RunsDown (ttl : Duration) (seconds : ℤ) (recordTTL : ℕ) : Prop :=
  let rem := seconds % 4294967296
  if rem = 4294967295 then
    recordTTL = 0 ∨ recordTTL = 4294967295 ∨ (recordTTL + 1 + seconds) * second ≤ ttl
  else recordTTL ≤ rem + 1 ∨ (recordTTL + (seconds - rem)) * second ≤ ttl

/-- A stored response that is served for no longer than is left of its entry. -/
def Outlived (ttl : Duration) (seconds : ℤ) (kind : Kind) (resp : Msg) : Prop :=
  match kind with
  | .positive => ∃ r, some r ∈ resp.answer ∧ RunsDown ttl seconds r.hdr.ttl.toNat
  | .negative => ∀ q soa, resp.question = [q] → findSOA resp.ns q.name = some soa →
      soa.2.toNat * second ≤ remaining ttl seconds ∨ RunsDown ttl seconds soa.1.ttl.toNat

section Records

variable {ttl x : Duration} {seconds : ℤ}

/-- The lifetime of a record after some whole seconds. -/
def lowered (seconds : ℤ) (recordTTL : UInt32) : UInt32 :=
  let rem := toUint32 seconds
  if rem + 1 < recordTTL then recordTTL - rem else 1

theorem lowered_le_iff (ttl : Duration) (recordTTL : UInt32) :
    (lowered seconds recordTTL).toNat * second ≤ remaining ttl seconds ↔
      RunsDown ttl seconds recordTTL.toNat := by
  have hrem := toNat_toUint32 seconds
  have hlt := recordTTL.toNat_lt
  have hsum := UInt32.toNat_add (toUint32 seconds) 1
  have hdiff := UInt32.toNat_sub recordTTL (toUint32 seconds)
  have hone : (1 : UInt32).toNat = 1 := rfl
  rw [hone] at hsum
  unfold lowered remaining RunsDown
  simp only [UInt32.lt_iff_toNat_lt, Duration, second, le_max_iff] at hsum hdiff ⊢
  generalize (toUint32 seconds).toNat = r at *
  split_ifs with h₁ h₂ h₂
  · omega
  · omega
  · omega
  · omega

theorem foldl_min_le_iff (l : List Record) (least : UInt32) :
    (l.foldl (fun (least : UInt32) r => min r.hdr.ttl least) least).toNat * second ≤ x ↔
      least.toNat * second ≤ x ∨ ∃ r ∈ l, r.hdr.ttl.toNat * second ≤ x := by
  induction l generalizing least with
  | nil => simp
  | cons r l ih =>
    have hmin : (min r.hdr.ttl least).toNat * second ≤ x ↔
        r.hdr.ttl.toNat * second ≤ x ∨ least.toNat * second ≤ x := by
      rw [UInt32.toNat_min]
      simp only [Duration, second]
      omega
    rw [List.foldl_cons, ih, hmin, List.exists_mem_cons_iff, or_assoc]
    exact or_left_comm

theorem minTTL_le_iff {rrs : List RR} (h : ∃ r, some r ∈ rrs) :
    minTTL rrs ≤ x ↔ ∃ r, some r ∈ rrs ∧ r.hdr.ttl.toNat * second ≤ x := by
  have hmem : ∀ r, r ∈ rrs.filterMap id ↔ some r ∈ rrs := by simp
  rw [minTTL, foldl_min_le_iff]
  simp only [hmem]
  refine or_iff_right_of_imp fun hx => ?_
  obtain ⟨r, hr⟩ := h
  refine ⟨r, hr, le_trans ?_ hx⟩
  have hlt := r.hdr.ttl.toNat_lt
  have htop : (0xffffffff : UInt32).toNat = 4294967295 := rfl
  simp only [Duration, second, htop]
  omega

end Records

theorem findSOA_mapTTL (f : UInt32 → UInt32) (m : Msg) (qname : Str) :
    findSOA (mapTTL f m).ns qname =
      (findSOA m.ns qname).map fun soa => ({ soa.1 with ttl := f soa.1.ttl }, soa.2) := by
  have hsoa : ∀ rr : RR,
      asSOA (rr.map fun r => { r with hdr := { r.hdr with ttl := f r.hdr.ttl } }) =
        (asSOA rr).map fun soa => ({ soa.1 with ttl := f soa.1.ttl }, soa.2) := by
    rintro (_ | ⟨hdr, data⟩)
    · rfl
    · cases data <;> rfl
  simp only [findSOA, mapTTL, List.filterMap_map, Function.comp_def, hsoa]
  rw [← List.map_filterMap, List.find?_map]
  rfl

theorem decrementTTL_eq (m : Msg) (age : Duration) :
    decrementTTL m age = mapTTL (lowered (age.tdiv second)) m := rfl

variable {cfg : Config} {k : Key} {calls : List Call} {resp msg : Msg} {kind : Kind}
  {ttl : Duration} {t now : Time}

theorem cacheable_cases (h : cacheable cfg resp = some (ttl, kind)) :
    ∃ q, resp.question = [q] ∧
      ((kind = .positive ∧ ∃ r, some r ∈ resp.answer) ∨
        (kind = .negative ∧ ∃ soa, findSOA resp.ns q.name = some soa)) := by
  have hneg : ∀ qname, ((findSOA resp.ns qname).map fun soa =>
      (clamp (soaTTL soa) cfg.negMinTTL cfg.negMaxTTL, Kind.negative)) = some (ttl, kind) →
        kind = .negative ∧ ∃ soa, findSOA resp.ns qname = some soa := by
    intro qname h
    obtain ⟨soa, hsoa, heq⟩ := Option.map_eq_some_iff.mp h
    cases heq
    exact ⟨rfl, soa, hsoa⟩
  unfold cacheable at h
  split at h
  · cases h
  · split at h
    · rename_i q hq
      refine ⟨q, hq, ?_⟩
      dsimp only at h
      split_ifs at h with hqtype hany
      · split at h
        · cases h
          obtain ⟨_ | r, hrr, hany⟩ := List.any_eq_true.mp hany
          · cases hany
          · exact Or.inl ⟨rfl, r, hrr⟩
        · exact Or.inr (hneg _ h)
        · cases h
      · split at h
        · exact Or.inr (hneg _ h)
        · exact Or.inr (hneg _ h)
        · cases h
    · cases h

/-- The lifetime served of a stored response is at most what is left of its entry exactly if it is
by the response. -/
theorem downstreamTTL_decrementTTL_iff (hc : cacheable cfg resp = some (ttl, kind))
    (age : Duration) :
    downstreamTTL kind (decrementTTL (Cache.kept resp) age) ≤ remaining ttl (age.tdiv second) ↔
      Outlived ttl (age.tdiv second) kind resp := by
  rw [decrementTTL_eq]
  obtain ⟨q, hq, ⟨rfl, r, hr⟩ | ⟨rfl, soa, hsoa⟩⟩ := cacheable_cases hc
  · rw [downstreamTTL, minTTL_le_iff]
    · constructor
      · rintro ⟨r', hr', hle⟩
        obtain ⟨rr, hrr, heq⟩ := List.mem_map.mp hr'
        obtain ⟨r₀, rfl, rfl⟩ := Option.map_eq_some_iff.mp heq
        exact ⟨r₀, hrr, (lowered_le_iff ttl _).mp hle⟩
      · rintro ⟨r₀, hr₀, hdown⟩
        exact ⟨_, List.mem_map_of_mem hr₀, (lowered_le_iff ttl _).mpr hdown⟩
    · exact ⟨_, List.mem_map_of_mem hr⟩
  · have hserved : downstreamTTL .negative (mapTTL (lowered (age.tdiv second)) (Cache.kept resp)) =
        (min (lowered (age.tdiv second) soa.1.ttl) soa.2).toNat * second := by
      have hquestion : (mapTTL (lowered (age.tdiv second)) (Cache.kept resp)).question = [q] := hq
      have hns : findSOA (Cache.kept resp).ns q.name = some soa := hsoa
      rw [downstreamTTL, hquestion, List.head?_cons, Option.bind_some, findSOA_mapTTL, hns]
      rfl
    have hmin : (min (lowered (age.tdiv second) soa.1.ttl) soa.2).toNat * second ≤
          remaining ttl (age.tdiv second) ↔
        soa.2.toNat * second ≤ remaining ttl (age.tdiv second) ∨
          (lowered (age.tdiv second) soa.1.ttl).toNat * second ≤
            remaining ttl (age.tdiv second) := by
      rw [UInt32.toNat_min]
      simp only [Duration, second]
      omega
    rw [hserved, hmin, lowered_le_iff]
    constructor
    · intro h q' soa' hq' hsoa'
      obtain rfl : q = q' := List.singleton_inj.mp (hq.symm.trans hq')
      obtain rfl : soa = soa' := Option.some.inj (hsoa.symm.trans hsoa')
      exact h
    · intro h
      exact h q soa hq hsoa

theorem fresh_eq_decrementTTL
    (hput : lastPut cfg.resolved k calls = some ⟨.answer kind (Cache.kept resp), t, ttl, 0⟩)
    (hfresh : ((calls.foldl Cache.step (Cache.new cfg)).lookup k now).2 = .fresh msg) :
    msg = decrementTTL (Cache.kept resp) (now - t) := by
  obtain ⟨hcfg, ht⟩ := Cache.run_tracked cfg k calls
  rw [Runs.map_snd_trace] at ht
  have hsame := (ht _ hput).same
  rw [(Cache.lookup_eq _ k now).1] at hfresh
  rcases hl : (calls.foldl Cache.step (Cache.new cfg)).entries.lookup k with _ | x
  · rw [hl] at hfresh
    cases hfresh
  · rw [hl, Option.elim, classify_congr (hsame x hl)] at hfresh
    unfold classify at hfresh
    dsimp only at hfresh
    split_ifs at hfresh
    cases hfresh
    rfl

/-- The lifetime a downstream cache takes from a fresh answer is at most what is left of the entry
exactly if the stored response outlives it by none of its lifetimes. -/
theorem fresh_lifetime_iff (hc : cacheable cfg.resolved resp = some (ttl, kind))
    (hput : lastPut cfg.resolved k calls = some ⟨.answer kind (Cache.kept resp), t, ttl, 0⟩)
    (hage : t ≤ now)
    (hfresh : ((calls.foldl Cache.step (Cache.new cfg)).lookup k now).2 = .fresh msg) :
    downstreamTTL kind msg ≤ remaining ttl ((now - t) / second) ↔
      Outlived ttl ((now - t) / second) kind resp := by
  have hdiv : (now - t) / second = (now - t).tdiv second :=
    (Int.tdiv_eq_ediv_of_nonneg (Int.sub_nonneg_of_le hage)).symm
  rw [fresh_eq_decrementTTL hput hfresh, hdiv]
  exact downstreamTTL_decrementTTL_iff hc (now - t)

def addressAnswer (recordTTL : UInt32) : Msg where
  question := [⟨"a.".toList, typeA, classINET⟩]
  answer := [some ⟨⟨"a.".toList, typeA, classINET, recordTTL⟩, .a (.v4 0)⟩]

def negativeAnswer (recordTTL minttl : UInt32) : Msg where
  rcode := .nameError
  question := [⟨"a.b.".toList, typeA, classINET⟩]
  ns := [some ⟨⟨"b.".toList, typeSOA, classINET, recordTTL⟩, .soa [] [] 0 0 0 0 minttl⟩]

def storeAt0 (name : String) (resp : Msg) : List Call :=
  [⟨.store ⟨name.toList, typeA, classINET, false⟩ resp, 0⟩]

def lookupAfter (name : String) (resp : Msg) (now : Time) : Result :=
  (((storeAt0 name resp).foldl Cache.step (Cache.new {})).lookup
    ⟨name.toList, typeA, classINET, false⟩ now).2

theorem fresh_lifetime_running_down :
    ∃ msg, lookupAfter "a." (addressAnswer 300) (100 * second) = .fresh msg ∧
      (downstreamTTL .positive msg ≤ remaining (300 * second) 100 ↔
        Outlived (300 * second) 100 .positive (addressAnswer 300)) := by
  refine ⟨_, rfl, ?_⟩
  have h := @fresh_lifetime_iff {} ⟨"a.".toList, typeA, classINET, false⟩
    (storeAt0 "a." (addressAnswer 300)) (addressAnswer 300) _
    .positive (300 * second) 0 (100 * second) (by decide) (by decide) (by decide) rfl
  have hdiv : (100 * second - 0) / second = 100 := by decide
  rwa [hdiv] at h

/-- A record that lasts for a week is served for a week though it is kept for a day, and the
minimum of a zone is served in full for as long as the negative answer is kept. -/
theorem served_beyond_entry :
    (∃ msg, lookupAfter "a." (addressAnswer 604800) 0 = .fresh msg ∧
      cacheable (Config.resolved {}) (addressAnswer 604800) = some (24 * hour, .positive) ∧
      ¬ downstreamTTL .positive msg ≤ remaining (24 * hour) 0) ∧
    ∃ msg, lookupAfter "a.b." (negativeAnswer 3600 300) (200 * second) = .fresh msg ∧
      cacheable (Config.resolved {}) (negativeAnswer 3600 300) = some (300 * second, .negative) ∧
      ¬ downstreamTTL .negative msg ≤ remaining (300 * second) 200 :=
  ⟨⟨_, rfl, by decide, by decide⟩, ⟨_, rfl, by decide, by decide⟩⟩

end SplitDNS.Anscache
