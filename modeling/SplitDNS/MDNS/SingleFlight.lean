import SplitDNS.Go.MapSize
import SplitDNS.MDNS.OnDemand
import SplitDNS.Runs.Basic

/-! # Queries in flight

Any number of callers of `Resolve`, each between its decision, its query and the
end of its wait, together with the listener that wakes them. The clock is read
with the lock held and never goes back. Three facts are kept apart: who holds a
place in flight and which channels are closed, which queries the table of recent
ones still knows, and what the global bucket has granted.
-/

namespace SplitDNS.MDNS

open Go Go.Netip

/-- A query, with the time at which it was decided on. -/
structure Query where
  label : Str
  time : Time
  deriving DecidableEq

structure Solicitor where
  flight : ℕ
  query : Query
  deriving DecidableEq

/-- The callers at work. `decided` has the latest query first; `closed` are the flights whose
channels were closed. -/
structure InFlight where
  od : OnDemand
  clock : Time
  decided : List Query := []
  sending : List Solicitor := []
  waiting : List Solicitor := []
  emitted : List Query := []
  closed : List ℕ := []
  resets : ℕ := 0

namespace InFlight

inductive Event where
  | resolve (x : Ask)
  | send (c : Solicitor)
  | leave (c : Solicitor)
  | complete (hosts : List Str)

/-- A call of `Resolve` up to the query. -/
def ask (s : InFlight) (x : Ask) : InFlight :=
  match s.od.resolve x with
  | (od, .solicited flight, reset) =>
    { s with
      od
      clock := x.later
      decided := ⟨x.label, x.now⟩ :: s.decided
      sending := ⟨flight, x.label, x.now⟩ :: s.sending
      resets := s.resets + if reset then 1 else 0 }
  | (od, _, _) => { s with od, clock := x.now }

/-- One atomic step. A wait may end at any time, since it may time out; a label that does not pack
is not sent. -/
def step (packs : Str → Bool) (s : InFlight) : Event → Option InFlight
  | .resolve x => if s.clock ≤ x.now ∧ x.now ≤ x.later then some (s.ask x) else none
  | .send c =>
    if c ∈ s.sending then
      some
        { s with
          sending := s.sending.erase c
          waiting := c :: s.waiting
          emitted := if packs c.query.label then c.query :: s.emitted else s.emitted }
    else none
  | .leave c =>
    if c ∈ s.waiting then
      some
        { s with
          od := s.od.release c.query.label c.flight
          waiting := s.waiting.erase c }
    else none
  | .complete hosts =>
    let r := s.od.completeInflight hosts
    some { s with od := r.1, closed := s.closed ++ r.2 }

end InFlight

namespace OnDemand

/-- A call that asks for nothing changes the buckets at most. A call that solicits found the label
neither pending nor recent, a place, and a token. -/
theorem resolve_cases (od : OnDemand) (x : Ask) :
    (∃ global clients v, od.resolve x = ({ od with global, clients }, v, false) ∧
      (∀ n, v ≠ .solicited n) ∧
      (global = od.global ∨ global = (od.global.allow x.now odGlobalRate odGlobalBurst).1)) ∨
    od.pending.lookup x.label = none ∧ od.recently x.label x.now = false ∧
      od.pending.entries.length < odInflightCap ∧
      (od.global.allow x.now odGlobalRate odGlobalBurst).2 = true ∧
      ∃ clients, od.resolve x =
        ({ od with
           pending := od.pending.insert x.label od.flights
           recent := (odBoundRecent (od.recent.insert x.label x.now) x.later).1
           global := (od.global.allow x.now odGlobalRate odGlobalBurst).1
           clients
           flights := od.flights + 1 }, .solicited od.flights,
          (odBoundRecent (od.recent.insert x.label x.now) x.later).2) := by
  unfold resolve
  by_cases hoff : (!od.enabled || x.label = []) = true
  · rw [if_pos hoff]
    exact Or.inl ⟨_, _, _, rfl, by simp, Or.inl rfl⟩
  rw [if_neg hoff]
  rcases hp : od.pending.lookup x.label with _ | flight
  · dsimp only
    cases hr : od.recently x.label x.now with
    | true => exact Or.inl ⟨_, _, _, rfl, by simp, Or.inl rfl⟩
    | false =>
      rw [if_neg Bool.false_ne_true]
      by_cases hcap : odInflightCap ≤ od.pending.entries.length
      · rw [if_pos hcap]
        exact Or.inl ⟨_, _, _, rfl, by simp, Or.inl rfl⟩
      rw [if_neg hcap]
      cases hg : (od.global.allow x.now odGlobalRate odGlobalBurst).2 with
      | false => exact Or.inl ⟨_, _, _, rfl, by simp, Or.inr rfl⟩
      | true =>
        cases hc : (odClientAllow od.clients x.ord x.now x.client).2 with
        | false => exact Or.inl ⟨_, _, _, rfl, by simp, Or.inr rfl⟩
        | true => exact Or.inr ⟨rfl, rfl, not_le.mp hcap, rfl, _, rfl⟩
  · exact Or.inl ⟨_, _, _, rfl, by simp, Or.inl rfl⟩

theorem release_frame (od : OnDemand) (label : Str) (n : ℕ) :
    (od.release label n).recent = od.recent ∧ (od.release label n).global = od.global := by
  unfold release
  split_ifs
  · exact ⟨rfl, rfl⟩
  · exact ⟨rfl, rfl⟩

theorem completeInflight_frame (od : OnDemand) (hosts : List Str) :
    (od.completeInflight hosts).1.recent = od.recent ∧
      (od.completeInflight hosts).1.global = od.global := by
  unfold completeInflight
  refine List.foldlRecOn (motive := fun p : OnDemand × List ℕ =>
    p.1.recent = od.recent ∧ p.1.global = od.global) hosts _ ⟨rfl, rfl⟩ fun p hp host _ => ?_
  unfold wake
  split
  · exact hp
  · exact hp

end OnDemand

section Slots

/-- The flights in progress are told apart by their numbers, there are no more than the cap, and
no channel of theirs was closed. No channel was closed twice. -/
structure Slots (pending : Map Str ℕ) (flights : ℕ) (closed : List ℕ) : Prop where
  length_le : pending.entries.length ≤ odInflightCap
  lt : ∀ label n, pending.lookup label = some n → n < flights
  inj : ∀ label label' n, pending.lookup label = some n → pending.lookup label' = some n →
    label = label'
  not_closed : ∀ label n, pending.lookup label = some n → n ∉ closed
  closed_lt : ∀ n ∈ closed, n < flights
  closed_nodup : closed.Nodup

variable {pending : Map Str ℕ} {flights : ℕ} {closed : List ℕ}

theorem Slots.insert (h : Slots pending flights closed) {label : Str}
    (hlen : pending.entries.length < odInflightCap) :
    Slots (pending.insert label flights) (flights + 1) closed where
  length_le := (Map.length_insert_le pending label flights).trans hlen
  lt label' n hn := by
    rw [Map.lookup_insert_eq_ite] at hn
    split_ifs at hn
    · cases hn
      exact Nat.lt_succ_self _
    · exact (h.lt label' n hn).trans (Nat.lt_succ_self _)
  inj label₁ label₂ n h₁ h₂ := by
    rw [Map.lookup_insert_eq_ite] at h₁ h₂
    split_ifs at h₁ h₂ with he₁ he₂ he₂
    · rw [he₁, he₂]
    · cases h₁
      exact absurd (h.lt label₂ _ h₂) (lt_irrefl _)
    · cases h₂
      exact absurd (h.lt label₁ _ h₁) (lt_irrefl _)
    · exact h.inj label₁ label₂ n h₁ h₂
  not_closed label' n hn hmem := by
    rw [Map.lookup_insert_eq_ite] at hn
    split_ifs at hn
    · cases hn
      exact lt_irrefl _ (h.closed_lt _ hmem)
    · exact h.not_closed label' n hn hmem
  closed_lt n hn := (h.closed_lt n hn).trans (Nat.lt_succ_self _)
  closed_nodup := h.closed_nodup

theorem Slots.erase (h : Slots pending flights closed) (label : Str) :
    Slots (pending.erase label) flights closed where
  length_le := (Map.length_erase_le pending label).trans h.length_le
  lt label' n hn := h.lt label' n (Map.lookup_erase_eq_some hn).2
  inj label₁ label₂ n h₁ h₂ :=
    h.inj label₁ label₂ n (Map.lookup_erase_eq_some h₁).2 (Map.lookup_erase_eq_some h₂).2
  not_closed label' n hn := h.not_closed label' n (Map.lookup_erase_eq_some hn).2
  closed_lt := h.closed_lt
  closed_nodup := h.closed_nodup

theorem Slots.wake (h : Slots pending flights closed) {label : Str} {n : ℕ}
    (hn : pending.lookup label = some n) : Slots (pending.erase label) flights (closed ++ [n]) where
  length_le := (h.erase label).length_le
  lt := (h.erase label).lt
  inj := (h.erase label).inj
  not_closed label' m hm hmem := by
    obtain ⟨hne, hm⟩ := Map.lookup_erase_eq_some hm
    rcases List.mem_append.mp hmem with hmem | hmem
    · exact h.not_closed label' m hm hmem
    · rw [List.mem_singleton.mp hmem] at hm
      exact hne (h.inj label' label n hm hn)
  closed_lt m hm := by
    rcases List.mem_append.mp hm with hm | hm
    · exact h.closed_lt m hm
    · rw [List.mem_singleton.mp hm]
      exact h.lt label n hn
  closed_nodup := by
    refine List.nodup_append.mpr ⟨h.closed_nodup, List.nodup_singleton n, fun a ha b hb => ?_⟩
    rw [List.mem_singleton.mp hb]
    rintro rfl
    exact h.not_closed label _ hn ha

theorem Slots.release {od : OnDemand} (h : Slots od.pending od.flights closed) (label : Str)
    (n : ℕ) : Slots (od.release label n).pending (od.release label n).flights closed := by
  unfold OnDemand.release
  split_ifs
  · exact h.erase label
  · exact h

theorem Slots.completeInflight {od : OnDemand} (h : Slots od.pending od.flights closed)
    (hosts : List Str) : Slots (od.completeInflight hosts).1.pending
      (od.completeInflight hosts).1.flights (closed ++ (od.completeInflight hosts).2) := by
  unfold OnDemand.completeInflight
  refine List.foldlRecOn (motive := fun p : OnDemand × List ℕ =>
    Slots p.1.pending p.1.flights (closed ++ p.2)) hosts _ ?_ fun p hp host _ => ?_
  · rw [List.append_nil]
    exact h
  · unfold OnDemand.wake
    rcases hl : p.1.pending.lookup host with _ | n
    · exact hp
    · dsimp only
      rw [← List.append_assoc]
      exact hp.wake hl

end Slots

section Recent

/-- Two queries for one label are a suppression window apart. -/
def Apart (q q' : Query) : Prop := q.label = q'.label → odSuppressWindow ≤ |q.time - q'.time|

/-- The queries for one label are apart, and each is older than the window or still known by a
query for its label that is no older. -/
structure Remembers (recent : Map Str Time) (decided : List Query) (clock : Time) : Prop where
  le_clock : ∀ q ∈ decided, q.time ≤ clock
  apart : decided.Pairwise Apart
  known : ∀ q ∈ decided, (∃ t, recent.lookup q.label = some t ∧ q.time ≤ t) ∨
    q.time + odSuppressWindow < clock
  mem_decided : ∀ label t, recent.lookup label = some t → ⟨label, t⟩ ∈ decided

variable {recent : Map Str Time} {decided : List Query} {clock now later : Time} {label : Str}

theorem Remembers.mono (h : Remembers recent decided clock) (hle : clock ≤ now) :
    Remembers recent decided now where
  le_clock q hq := (h.le_clock q hq).trans hle
  apart := h.apart
  known q hq := (h.known q hq).imp_right fun hold => hold.trans_le hle
  mem_decided := h.mem_decided

theorem Remembers.insert (h : Remembers recent decided clock) (hle : clock ≤ now)
    (hfresh : ∀ t, recent.lookup label = some t → odSuppressWindow ≤ now - t) :
    Remembers (recent.insert label now) (⟨label, now⟩ :: decided) now where
  le_clock q hq := by
    rcases List.mem_cons.mp hq with rfl | hq
    · exact le_rfl
    · exact (h.le_clock q hq).trans hle
  apart := by
    refine List.pairwise_cons.mpr ⟨fun q hq hlabel => ?_, h.apart⟩
    have hage : odSuppressWindow ≤ now - q.time := by
      rcases h.known q hq with ⟨t, ht, hqt⟩ | hold
      · have hlabel : label = q.label := hlabel
        have hwait := hfresh t (hlabel ▸ ht)
        linarith
      · linarith
    exact hage.trans (le_abs_self _)
  known q hq := by
    rcases List.mem_cons.mp hq with rfl | hq
    · exact Or.inl ⟨now, AList.lookup_insert _, le_rfl⟩
    · by_cases hlabel : q.label = label
      · exact Or.inl ⟨now, by rw [hlabel, AList.lookup_insert], (h.le_clock q hq).trans hle⟩
      · rw [AList.lookup_insert_ne hlabel]
        exact (h.mono hle).known q hq
  mem_decided label' t ht := by
    rw [Map.lookup_insert_eq_ite] at ht
    split_ifs at ht with he
    · cases ht
      rw [he]
      exact List.mem_cons_self
    · exact List.mem_cons_of_mem _ (h.mem_decided label' t ht)

theorem Remembers.deleteIf (h : Remembers recent decided clock) :
    Remembers (recent.deleteIf fun _ t => t < clock - odSuppressWindow) decided clock where
  le_clock := h.le_clock
  apart := h.apart
  known q hq := by
    rcases h.known q hq with ⟨t, ht, hqt⟩ | hold
    · by_cases hold : t < clock - odSuppressWindow
      · exact Or.inr (by linarith)
      · exact Or.inl ⟨t, by simp [Map.lookup_deleteIf, ht, hold], hqt⟩
    · exact Or.inr hold
  mem_decided label t ht := by
    rw [Map.lookup_deleteIf, Option.filter_eq_some_iff] at ht
    exact h.mem_decided label t ht.1

theorem Remembers.length_deleteIf_le (h : Remembers recent decided clock) :
    (recent.deleteIf fun _ t => t < clock - odSuppressWindow).entries.length ≤
      (decided.filter fun q => clock - odSuppressWindow ≤ q.time).length := by
  set kept := recent.deleteIf fun _ t => t < clock - odSuppressWindow with hkept
  have hinj : (kept.entries.map fun e => (⟨e.1, e.2⟩ : Query)).Nodup := by
    refine (List.NodupKeys.nodup kept.nodupKeys).map fun e e' he => ?_
    cases e
    cases e'
    cases he
    rfl
  have hsub : (kept.entries.map fun e => (⟨e.1, e.2⟩ : Query)) ⊆
      decided.filter fun q => clock - odSuppressWindow ≤ q.time := by
    intro q hq
    obtain ⟨⟨label, t⟩, he, rfl⟩ := List.mem_map.mp hq
    have hlookup := Map.lookup_eq_some_iff_mem_entries.mpr he
    rw [hkept, Map.lookup_deleteIf, Option.filter_eq_some_iff] at hlookup
    exact List.mem_filter.mpr ⟨h.mem_decided label t hlookup.1, by simpa using hlookup.2⟩
  simpa using (List.subperm_of_subset hinj hsub).length_le

theorem Remembers.odBoundRecent (h : Remembers recent decided later)
    (hfew : (decided.filter fun q => later - odSuppressWindow ≤ q.time).length ≤ odTableCap) :
    Remembers (odBoundRecent recent later).1 decided later ∧
      (MDNS.odBoundRecent recent later).2 = false := by
  unfold MDNS.odBoundRecent
  by_cases hlen : recent.entries.length ≤ odTableCap
  · rw [if_pos hlen]
    exact ⟨h, rfl⟩
  · rw [if_neg hlen, if_neg (not_lt.mpr (h.length_deleteIf_le.trans hfew))]
    exact ⟨h.deleteIf, rfl⟩

end Recent

section Granted

/-- The global bucket shows the vessel after some withdrawals, and every query was one of them. -/
structure Budget (global : OdBucket) (decided : List Query) (clock : Time) (ws : List ℚ) :
    Prop where
  granted : odGlobalLimit.Granted ws
  le_clock : ∀ w ∈ ws, w ≤ inSeconds clock
  level : ∀ u, inSeconds clock ≤ u → global.level odGlobalLimit u = odGlobalLimit.content ws u
  sublist : (decided.map fun q => inSeconds q.time).Sublist ws

variable {global : OdBucket} {decided : List Query} {clock now : Time} {ws : List ℚ}

theorem Budget.mono (h : Budget global decided clock ws) (hle : clock ≤ now) :
    Budget global decided now ws where
  granted := h.granted
  le_clock w hw := (h.le_clock w hw).trans (inSeconds_le.mpr hle)
  level u hu := h.level u ((inSeconds_le.mpr hle).trans hu)
  sublist := h.sublist

theorem Budget.allow (h : Budget global decided clock ws) (hle : clock ≤ now) :
    Budget (global.allow now odGlobalRate odGlobalBurst).1 decided now
      (if (global.allow now odGlobalRate odGlobalBurst).2 then inSeconds now :: ws else ws) where
  granted := by
    split_ifs with hyes
    · refine .cons h.granted (h.mono hle).le_clock ?_
      rw [← (h.mono hle).level _ le_rfl]
      exact global_granted_iff.mp hyes
    · exact h.granted
  le_clock w hw := by
    split_ifs at hw
    · rcases List.mem_cons.mp hw with rfl | hw
      · exact le_rfl
      · exact (h.mono hle).le_clock w hw
    · exact (h.mono hle).le_clock w hw
  level u hu := (OdBucket.isMeter odGlobalLimit).shows_after trivial trivial
    ((h.mono hle).level _ le_rfl) hu
  sublist := by
    split_ifs
    · exact h.sublist.cons _
    · exact h.sublist

theorem Budget.decide (h : Budget global decided clock ws) (hle : clock ≤ now)
    (hyes : (global.allow now odGlobalRate odGlobalBurst).2 = true) (label : Str) :
    Budget (global.allow now odGlobalRate odGlobalBurst).1 (⟨label, now⟩ :: decided) now
      (inSeconds now :: ws) := by
  have hallow := h.allow hle
  rw [if_pos hyes] at hallow
  exact ⟨hallow.granted, hallow.le_clock, hallow.level, h.sublist.cons_cons _⟩

theorem Budget.length_le (h : Budget global decided clock ws) :
    (decided.filter fun q => clock - odSuppressWindow ≤ q.time).length ≤ odTableCap := by
  have hab : inSeconds (clock - odSuppressWindow) ≤ inSeconds clock :=
    inSeconds_le.mpr (sub_le_self clock (by decide))
  have hwindow := h.granted.window_le hab
  have hgain : inSeconds clock - inSeconds (clock - odSuppressWindow) = 10 := by
    rw [← seconds_sub, sub_sub_cancel, seconds_rat]
    norm_num [odSuppressWindow, second]
  have hsub := (h.sublist.filter fun w =>
    inSeconds (clock - odSuppressWindow) ≤ w ∧ w ≤ inSeconds clock).length_le
  have hsame : (decided.filter fun q => clock - odSuppressWindow ≤ q.time).length =
      ((decided.map fun q => inSeconds q.time).filter fun w =>
        inSeconds (clock - odSuppressWindow) ≤ w ∧ w ≤ inSeconds clock).length := by
    rw [List.filter_map, List.length_map]
    congr 1
    refine List.filter_congr fun q hq => ?_
    have hle := h.le_clock _ (h.sublist.subset (List.mem_map_of_mem hq))
    simp [inSeconds_le, inSeconds_le.mp hle]
  have hnum : odGlobalLimit.burst + odGlobalLimit.rate * 10 = 120 := by
    norm_num [odGlobalLimit, odGlobalBurst, odGlobalRate]
  rw [hgain, hnum] at hwindow
  have hcount : (ws.filter fun w =>
      inSeconds (clock - odSuppressWindow) ≤ w ∧ w ≤ inSeconds clock).length ≤ 120 := by
    exact_mod_cast hwindow
  rw [hsame]
  exact hsub.trans (hcount.trans (by decide))

end Granted

namespace InFlight

variable {packs : Str → Bool} {s s' : InFlight}

structure Sound (s : InFlight) : Prop where
  slots : Slots s.od.pending s.od.flights s.closed
  remembers : Remembers s.od.recent s.decided s.clock
  budget : ∃ ws, Budget s.od.global s.decided s.clock ws
  sent : (s.emitted ++ s.sending.map Solicitor.query).Subperm s.decided
  resets : s.resets = 0

theorem sound_start (enabled : Bool) (start : Time) :
    Sound { od := { enabled }, clock := start } where
  slots := ⟨Nat.zero_le _, by simp, by simp, by simp, by simp, List.nodup_nil⟩
  remembers := ⟨by simp, List.Pairwise.nil, by simp, by simp⟩
  budget := ⟨[], .nil, by simp, fun _ _ => rfl, List.Sublist.refl _⟩
  sent := List.Subperm.refl _
  resets := rfl

theorem Sound.ask (h : s.Sound) {x : Ask} (hnow : s.clock ≤ x.now) (hlater : x.now ≤ x.later) :
    (s.ask x).Sound := by
  obtain ⟨ws, hws⟩ := h.budget
  unfold InFlight.ask
  rcases s.od.resolve_cases x with ⟨global, clients, v, heq, hv, hg⟩ |
    ⟨-, hrecent, hplace, hyes, clients, heq⟩
  · have hbudget : ∃ ws, Budget global s.decided x.now ws := by
      rcases hg with rfl | rfl
      · exact ⟨ws, hws.mono hnow⟩
      · exact ⟨_, hws.allow hnow⟩
    have hquiet : Sound { s with od := { s.od with global, clients }, clock := x.now } :=
      ⟨h.slots, h.remembers.mono hnow, hbudget, h.sent, h.resets⟩
    rw [heq]
    cases v with
    | solicited n => exact absurd rfl (hv n)
    | _ => exact hquiet
  · have hfresh : ∀ t, s.od.recent.lookup x.label = some t → odSuppressWindow ≤ x.now - t := by
      intro t ht
      simpa [OnDemand.recently, ht] using hrecent
    have hbudget := hws.decide hnow hyes x.label
    obtain ⟨hbound, hreset⟩ := ((h.remembers.insert hnow hfresh).mono hlater).odBoundRecent
      (hbudget.mono hlater).length_le
    rw [heq]
    refine ⟨h.slots.insert hplace, hbound, ⟨_, hbudget.mono hlater⟩, ?_, ?_⟩
    · exact List.perm_middle.subperm_right.mpr ((List.subperm_cons _).mpr h.sent)
    · dsimp only
      rw [hreset, h.resets]
      rfl

theorem Sound.send (h : s.Sound) {c : Solicitor} (hc : c ∈ s.sending) :
    Sound
      { s with
        sending := s.sending.erase c
        waiting := c :: s.waiting
        emitted := if packs c.query.label then c.query :: s.emitted else s.emitted } := by
  refine ⟨h.slots, h.remembers, h.budget, List.Subperm.trans ?_ h.sent, h.resets⟩
  have hperm : (s.emitted ++ s.sending.map Solicitor.query).Perm
      (c.query :: s.emitted ++ (s.sending.erase c).map Solicitor.query) := by
    have hmoved := ((List.perm_cons_erase hc).map Solicitor.query).append_left s.emitted
    exact hmoved.trans List.perm_middle
  dsimp only
  split_ifs
  · exact hperm.symm.subperm
  · exact (List.sublist_cons_self _ _).subperm.trans hperm.symm.subperm

theorem Sound.step (h : s.Sound) {e : Event} (hstep : s.step packs e = some s') : s'.Sound := by
  cases e with
  | resolve x =>
    simp only [InFlight.step, Option.ite_none_right_eq_some, Option.some.injEq] at hstep
    obtain ⟨⟨hnow, hlater⟩, rfl⟩ := hstep
    exact h.ask hnow hlater
  | send c =>
    simp only [InFlight.step, Option.ite_none_right_eq_some, Option.some.injEq] at hstep
    obtain ⟨hc, rfl⟩ := hstep
    exact h.send hc
  | leave c =>
    simp only [InFlight.step, Option.ite_none_right_eq_some, Option.some.injEq] at hstep
    obtain ⟨-, rfl⟩ := hstep
    obtain ⟨hrecent, hglobal⟩ := OnDemand.release_frame s.od c.query.label c.flight
    refine ⟨h.slots.release c.query.label c.flight, ?_, ?_, h.sent, h.resets⟩
    · dsimp only
      rw [hrecent]
      exact h.remembers
    · dsimp only
      rw [hglobal]
      exact h.budget
  | complete hosts =>
    cases hstep
    obtain ⟨hrecent, hglobal⟩ := OnDemand.completeInflight_frame s.od hosts
    refine ⟨h.slots.completeInflight hosts, ?_, ?_, h.sent, h.resets⟩
    · dsimp only
      rw [hrecent]
      exact h.remembers
    · dsimp only
      rw [hglobal]
      exact h.budget

theorem sound_of_run {enabled : Bool} {start : Time} {events : List Event}
    (h : Runs.run (step packs) { od := { enabled }, clock := start } events = some s) : s.Sound :=
  @Runs.inv_of_run _ _ _ _ _ _ (fun _ => Sound) (fun _ _ _ => True) (sound_start enabled start)
    (fun _ _ _ _ hs _ hstep => hs.step hstep) (fun _ _ _ _ _ _ => trivial) h

/-- However the callers, their waits and the wake-ups interleave, two queries for one label are
ten seconds apart, no more than 64 labels are pending, no channel is closed twice, and the table of
recent queries is never reset. -/
theorem single_flight (packs : Str → Bool) (enabled : Bool) (start : Time) (events : List Event)
    (s : InFlight)
    (h : Runs.run (step packs) { od := { enabled }, clock := start } events = some s) :
    (s.emitted.Pairwise fun q q' => q.label = q'.label → 10 * second ≤ |q.time - q'.time|) ∧
      s.od.pending.entries.length ≤ 64 ∧ s.closed.Nodup ∧ s.resets = 0 := by
  have hs := sound_of_run h
  refine ⟨?_, hs.slots.length_le, hs.slots.closed_nodup, hs.resets⟩
  have hsub : s.emitted.Subperm s.decided :=
    (List.sublist_append_left _ _).subperm.trans hs.sent
  obtain ⟨l, hperm, hl⟩ := hsub
  refine hperm.pairwise (hs.remembers.apart.sublist hl) fun hapart hlabel => ?_
  rw [abs_sub_comm]
  exact hapart hlabel.symm

def askAt (t : Time) : Ask where
  label := "printer".toList
  client := .v4 0x0a000001
  now := t
  later := t

/-- The printer is asked for, found, and asked for again after the window. -/
def askedTwice : List Event :=
  [.resolve (askAt 0), .send ⟨0, "printer".toList, 0⟩, .resolve (askAt 1),
    .complete ["printer".toList], .leave ⟨0, "printer".toList, 0⟩, .resolve (askAt (10 * second)),
    .send ⟨1, "printer".toList, 10 * second⟩]

theorem single_flight_askedTwice :
    ∃ s, Runs.run (step fun _ => true) { od := {}, clock := 0 } askedTwice = some s ∧
      s.emitted = [⟨"printer".toList, 10 * second⟩, ⟨"printer".toList, 0⟩] ∧
      (s.emitted.Pairwise fun q q' => q.label = q'.label → 10 * second ≤ |q.time - q'.time|) ∧
      s.od.pending.entries.length ≤ 64 ∧ s.closed.Nodup ∧ s.resets = 0 := by
  have hrun : (Runs.run (step fun _ => true) { od := {}, clock := 0 } askedTwice).map emitted =
      some [⟨"printer".toList, 10 * second⟩, ⟨"printer".toList, 0⟩] := by decide +kernel
  obtain ⟨s, hs, hemitted⟩ := Option.map_eq_some_iff.mp hrun
  exact ⟨s, hs, hemitted, single_flight _ true 0 askedTwice s hs⟩

end InFlight

end SplitDNS.MDNS
