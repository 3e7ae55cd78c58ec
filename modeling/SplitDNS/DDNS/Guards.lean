import SplitDNS.DDNS.Interrupted
import SplitDNS.DDNS.Writer
import SplitDNS.Runs.Basic

/-! # The guards of the writer

The editor is called only by a live writer with an allowlist, only about records
that pass it, only with public addresses, and for one host not more often than
the rate allows. The guards sit in the constructor, the record filter, the
planner and the rate state; together they hold along every run, whatever the
record source returns and whichever edits fail.
-/

namespace SplitDNS.DDNS

open Go Go.Netip Go.Strings Model Netmatch

/-- The call changes the record, or creates one of its name in its zone. -/
def EditorCall.Concerns (r : Model.RR) : EditorCall → Prop
  | update zoneID recordID name _ _ =>
    r.zoneID = zoneID ∧ r.recordID = recordID ∧ r.name = name
  | create zoneID name _ _ => r.zoneID = zoneID ∧ r.name = name
  | delete zoneID recordID => r.zoneID = zoneID ∧ r.recordID = recordID

def EditorCall.data : EditorCall → Option (Dns.RRType × Str)
  | update _ _ _ type content => some (type, content)
  | create _ _ type content => some (type, content)
  | delete _ _ => none

/-- A non-proxied address record whose name is on the allowlist. -/
def Allowed (cfg : Config) (r : Model.RR) : Prop :=
  r.proxied = false ∧ (r.type = Dns.typeA ∨ r.type = Dns.typeAAAA) ∧
    cfg.eligible.lookup (trimSuffix (toLower r.name) ['.']) = some true

theorem isDDNSEligible_of_mem_desired {c : Change} {a : Addr} (h : a ∈ c.desired) :
    isDDNSEligible a = true := by
  obtain ⟨b, hb, rfl⟩ := List.mem_map.mp h
  rw [isDDNSEligible_unmap]
  exact List.of_mem_filter hb

theorem mem_filterEligibleRecords {cfg : Config} {records : List Model.RR} {r : Model.RR}
    (hne : cfg.eligible.entries ≠ []) (h : r ∈ filterEligibleRecords records cfg.eligible) :
    r ∈ records ∧ Allowed cfg r := by
  obtain ⟨hr, hc⟩ := List.mem_filter.mp h
  simp only [Bool.and_eq_true, Bool.or_eq_true, Bool.not_eq_true', decide_eq_true_eq, hne,
    false_or] at hc
  refine ⟨hr, hc.1.1, hc.1.2, ?_⟩
  rcases hl : cfg.eligible.lookup (trimSuffix (toLower r.name) ['.']) with _ | b
  · rw [hl] at hc
    cases hc.2
  · rw [hl] at hc
    exact congrArg some hc.2

section Planning

variable {sortAdded : SliceSort Addr.string} {sortDeleted : SliceSort Model.RR.content}
  {records : List Model.RR} {desired : List Addr} {p : Plan} {call : EditorCall}

theorem buildPlan_mem_creates (hp : buildPlan sortAdded sortDeleted records desired = some p)
    {c : CreateOp} (hc : c ∈ p.creates) :
    ∃ r ∈ records, r.zoneID = c.zoneID ∧ r.name = c.name := by
  obtain ⟨first, hf, a₄, a₆, d₄, d₆, -, -, rfl⟩ := buildPlan_eq hp
  refine ⟨first, hf, ?_⟩
  rcases List.mem_append.mp hc with hc | hc
  all_goals
    obtain ⟨a, -, rfl⟩ := List.mem_map.mp hc
    exact ⟨rfl, rfl⟩

theorem buildPlan_call_concerns (hp : buildPlan sortAdded sortDeleted records desired = some p)
    (hc : call ∈ p.calls) : ∃ r ∈ records, call.Concerns r := by
  rw [Plan.calls, List.mem_append, List.mem_append] at hc
  rcases hc with (hc | hc) | hc
  · obtain ⟨e, he, rfl⟩ := List.mem_map.mp hc
    exact ⟨e.record, ((mem_touched_iff hp).mp (record_mem_touched he)).1, rfl, rfl, rfl⟩
  · obtain ⟨c, hm, rfl⟩ := List.mem_map.mp hc
    exact buildPlan_mem_creates hp hm
  · obtain ⟨d, hd, rfl⟩ := List.mem_map.mp hc
    exact ⟨d, ((mem_touched_iff hp).mp (delete_mem_touched hd)).1, rfl, rfl⟩

theorem buildPlan_call_data (hp : buildPlan sortAdded sortDeleted records desired = some p)
    (hc : call ∈ p.calls) {d : Dns.RRType × Str} (hd : call.data = some d) :
    ∃ a ∈ desired, d = (typeOf a, a.string) := by
  rw [Plan.calls, List.mem_append, List.mem_append] at hc
  rcases hc with (hc | hc) | hc
  · obtain ⟨e, he, rfl⟩ := List.mem_map.mp hc
    have hw : (e.record.name, e.addr) ∈ p.written :=
      List.mem_append_left _ (List.mem_map_of_mem he)
    exact ⟨e.addr, (written_desired hp hw).1, (Option.some.inj hd).symm⟩
  · obtain ⟨c, hm, rfl⟩ := List.mem_map.mp hc
    have hw : (c.name, c.addr) ∈ p.written := List.mem_append_right _ (List.mem_map_of_mem hm)
    exact ⟨c.addr, (written_desired hp hw).1, (Option.some.inj hd).symm⟩
  · obtain ⟨d, -, rfl⟩ := List.mem_map.mp hc
    cases hd

end Planning

namespace Writer

variable {F : Type*} [Float64 F] {w : Writer F} {x : Request} {host : Str} {p : Plan}

theorem execute_cases :
    (w.execute x host p).writer.cfg = w.cfg ∧
      ((w.execute x host p).calls = [] ∧
          (w.execute x host p).writer.lastByHost = w.lastByHost ∨
        w.tooSoon host x.now = false ∧
          (w.execute x host p).writer.lastByHost = w.lastByHost.insert host x.now ∧
          ((w.execute x host p).calls = [] ∨
            w.cfg.dryRun = false ∧ (w.execute x host p).calls = madeCalls x.fail 0 p.calls)) := by
  unfold execute
  dsimp only
  by_cases hs : w.tooSoon host x.now = true
  · rw [if_pos hs]
    exact ⟨rfl, Or.inl ⟨rfl, rfl⟩⟩
  rw [if_neg hs]
  rw [Bool.not_eq_true] at hs
  split_ifs with hg hd
  · exact ⟨rfl, Or.inl ⟨rfl, rfl⟩⟩
  · exact ⟨rfl, Or.inr ⟨hs, rfl, Or.inl rfl⟩⟩
  · rw [Bool.not_eq_true] at hd
    split
    · exact ⟨rfl, Or.inr ⟨hs, rfl, Or.inr ⟨hd, rfl⟩⟩⟩
    · exact ⟨rfl, Or.inr ⟨hs, rfl, Or.inr ⟨hd, rfl⟩⟩⟩

theorem reconcile_cases :
    ((w.reconcile x).writer = w ∧ (w.reconcile x).calls = []) ∨
      w.cfg.enabled = true ∧ ∃ records p, x.source x.change.key = .ok records ∧
        buildPlan x.sortAdded x.sortDeleted (filterEligibleRecords records w.cfg.eligible)
          x.change.desired = some p ∧
        w.reconcile x = w.execute x x.change.key p := by
  unfold reconcile
  split_ifs with he hd
  · exact Or.inl ⟨rfl, rfl⟩
  · exact Or.inl ⟨rfl, rfl⟩
  split
  · exact Or.inl ⟨rfl, rfl⟩
  next records hsrc =>
    split
    · exact Or.inl ⟨rfl, rfl⟩
    next p hp =>
      split_ifs
      · exact Or.inl ⟨rfl, rfl⟩
      · exact Or.inr ⟨by simpa using he, records, p, hsrc, hp, rfl⟩

theorem reconcile_of_calls (h : (w.reconcile x).calls ≠ []) :
    w.cfg.enabled = true ∧ w.cfg.dryRun = false ∧ w.tooSoon x.change.key x.now = false ∧
      (w.reconcile x).writer.lastByHost = w.lastByHost.insert x.change.key x.now ∧
      ∃ records p, x.source x.change.key = .ok records ∧
        buildPlan x.sortAdded x.sortDeleted (filterEligibleRecords records w.cfg.eligible)
          x.change.desired = some p ∧
        (w.reconcile x).calls = madeCalls x.fail 0 p.calls := by
  rcases @reconcile_cases F _ w x with ⟨-, hnil⟩ | ⟨he, records, p, hsrc, hp, heq⟩
  · exact absurd hnil h
  · rw [heq] at h ⊢
    obtain ⟨-, ⟨hnil, -⟩ | ⟨hs, hlast, hnil | ⟨hd, hcalls⟩⟩⟩ :=
      @execute_cases F _ w x x.change.key p
    · exact absurd hnil h
    · exact absurd hnil h
    · exact ⟨he, hd, hs, hlast, records, p, hsrc, hp, hcalls⟩

theorem reconcile_cfg : (w.reconcile x).writer.cfg = w.cfg := by
  rcases @reconcile_cases F _ w x with ⟨hw, -⟩ | ⟨-, records, p, -, -, heq⟩
  · rw [hw]
  · rw [heq]
    exact execute_cases.1

theorem reconcile_lastByHost :
    (w.reconcile x).writer.lastByHost = w.lastByHost ∨
      (w.reconcile x).writer.lastByHost = w.lastByHost.insert x.change.key x.now := by
  rcases @reconcile_cases F _ w x with ⟨hw, -⟩ | ⟨-, records, p, -, -, heq⟩
  · rw [hw]
    exact Or.inl rfl
  · rw [heq]
    rcases (@execute_cases F _ w x x.change.key p).2 with ⟨-, hlast⟩ | ⟨-, hlast, -⟩
    · exact Or.inl hlast
    · exact Or.inr hlast

def step (w : Writer F) (x : Request) : Writer F := (w.reconcile x).writer

/-- What the guards promise of one reconciliation after others. -/
structure Guarded (cfg : Config) (past : List (Writer F × Request)) (w : Writer F) (x : Request) :
    Prop where
  armed : (w.reconcile x).calls ≠ [] →
    cfg.enabled = true ∧ cfg.dryRun = false ∧ cfg.eligible.entries ≠ []
  records : ∀ call ∈ (w.reconcile x).calls, ∃ records, x.source x.change.key = .ok records ∧
    ∃ r ∈ records, Allowed cfg r ∧ call.Concerns r
  addresses : ∀ call ∈ (w.reconcile x).calls, ∀ d, call.data = some d →
    ∃ a, isDDNSEligible a = true ∧ d = (typeOf a, a.string)
  apart : (w.reconcile x).calls ≠ [] → ∀ p ∈ past, (p.1.reconcile p.2).calls ≠ [] →
    p.2.change.key = x.change.key → cfg.rate ≤ x.now - p.2.now

/-- The settings are those of the constructor, and the time of every host that reached the editor
is kept. -/
def Kept (cfg : Config) (past : List (Writer F × Request)) (w : Writer F) : Prop :=
  w.cfg = (new cfg 0 : Writer F).cfg ∧ ∀ p ∈ past, (p.1.reconcile p.2).calls ≠ [] →
    ∃ last, w.lastByHost.lookup p.2.change.key = some last ∧ p.2.now ≤ last

variable {cfg : Config} {past : List (Writer F × Request)}

theorem step_kept (h : Kept cfg past w) (htime : ∀ p ∈ past, p.2.now ≤ x.now) :
    Kept cfg (past ++ [(w, x)]) (step w x) := by
  refine ⟨reconcile_cfg.trans h.1, ?_⟩
  intro p hp hcalls
  rcases List.mem_append.mp hp with hp | hp
  · obtain ⟨last, hlast, hle⟩ := h.2 p hp hcalls
    rcases @reconcile_lastByHost F _ w x with hsame | hset
    · exact ⟨last, by rw [step, hsame]; exact hlast, hle⟩
    · rw [step, hset, Map.lookup_insert_eq_ite]
      split_ifs
      · exact ⟨x.now, rfl, htime p hp⟩
      · exact ⟨last, hlast, hle⟩
  · obtain rfl := List.mem_singleton.mp hp
    obtain ⟨-, -, -, hset, -⟩ := reconcile_of_calls hcalls
    exact ⟨x.now, by rw [step, hset, AList.lookup_insert], le_refl _⟩

theorem new_cfg_live (he : (new cfg 0 : Writer F).cfg.enabled = true)
    (hd : (new cfg 0 : Writer F).cfg.dryRun = false) :
    cfg.enabled = true ∧ cfg.dryRun = false ∧ cfg.eligible.entries ≠ [] := by
  simp only [new, Bool.or_eq_false_iff, Bool.and_eq_false_iff, Bool.not_eq_false',
    decide_eq_false_iff_not] at he hd
  refine ⟨he, hd.1, ?_⟩
  rcases hd.2 with (hd' | hd') | hd'
  · rw [he] at hd'
    cases hd'
  · rw [hd.1] at hd'
    cases hd'
  · exact hd'

theorem guarded_of_kept (h : Kept cfg past w) (htime : ∀ p ∈ past, p.2.now ≤ x.now) :
    Guarded cfg past w x := by
  have hlive : (w.reconcile x).calls ≠ [] →
      cfg.enabled = true ∧ cfg.dryRun = false ∧ cfg.eligible.entries ≠ [] := by
    intro hcalls
    obtain ⟨he, hd, -⟩ := reconcile_of_calls hcalls
    rw [h.1] at he hd
    exact new_cfg_live he hd
  have helig : w.cfg.eligible = cfg.eligible := by rw [h.1, new]
  refine ⟨hlive, ?_, ?_, ?_⟩
  · intro call hcall
    have hne := List.ne_nil_of_mem hcall
    obtain ⟨-, -, -, -, records, p, hsrc, hp, hcalls⟩ := reconcile_of_calls hne
    rw [hcalls] at hcall
    obtain ⟨r, hr, hc⟩ := buildPlan_call_concerns hp (madeCalls_isPrefix.subset hcall)
    rw [helig] at hr
    obtain ⟨hr, hallow⟩ := mem_filterEligibleRecords (hlive hne).2.2 hr
    exact ⟨records, hsrc, r, hr, hallow, hc⟩
  · intro call hcall d hd
    obtain ⟨-, -, -, -, records, p, -, hp, hcalls⟩ :=
      reconcile_of_calls (List.ne_nil_of_mem hcall)
    rw [hcalls] at hcall
    obtain ⟨a, ha, hda⟩ := buildPlan_call_data hp (madeCalls_isPrefix.subset hcall) hd
    exact ⟨a, isDDNSEligible_of_mem_desired ha, hda⟩
  · intro hcalls p hp hpcalls hkey
    obtain ⟨-, -, hs, -⟩ := reconcile_of_calls hcalls
    obtain ⟨last, hlast, hle⟩ := h.2 p hp hpcalls
    have hrate : w.cfg.rate = cfg.rate := by rw [h.1, new]
    rw [hkey] at hlast
    simp only [tooSoon, hlast, hrate, Option.any_some, Bool.and_eq_false_iff,
      decide_eq_false_iff_not] at hs
    rcases hs with hs | hs
    · exact (not_lt.mp hs).trans (sub_nonneg.mpr (htime p hp))
    · exact (not_lt.mp hs).trans (Int.sub_le_sub_left hle _)

/-- Along every run of a new writer at non-decreasing times, the guards hold. -/
theorem always_guarded (cfg : Config) (start : Time) (xs : List Request)
    (htime : xs.Pairwise fun x y => x.now ≤ y.now) :
    Runs.Always step (new cfg start : Writer F) (Guarded cfg) xs := by
  have h₀ : Kept cfg [] (new cfg start : Writer F) := ⟨rfl, by simp⟩
  exact Runs.always_of_inv h₀ (fun past w x h => step_kept h)
    (fun past w x h => guarded_of_kept h) (Runs.always_of_pairwise htime)

def liveConfig : Config where
  enabled := true
  rate := 60 * second
  eligible := Map.ofList [("host.a".toList, true)]
  globalBurst := 8
  globalRefill := 60 * second

/-- An announcement of one address for the host at an instant. -/
def announced (addr : Addr) (now : Time) : Request where
  change := ⟨" Host".toList, [addr]⟩
  source _ := .ok [hostA]
  now := now

/-- The second of two changes within the interval does not reach the editor. -/
theorem always_guarded_host :
    (Runs.trace step (new liveConfig 0 : Writer ℚ)
        [announced (.v4 0x08080808) second, announced (.v4 0x09090909) (30 * second)]).map
      (fun p => (p.1.reconcile p.2).calls.length) = [1, 0] ∧
      Runs.Always step (new liveConfig 0 : Writer ℚ) (Guarded liveConfig)
        [announced (.v4 0x08080808) second, announced (.v4 0x09090909) (30 * second)] :=
  ⟨by decide +kernel, always_guarded liveConfig 0 _ (by decide)⟩

end Writer

end SplitDNS.DDNS
