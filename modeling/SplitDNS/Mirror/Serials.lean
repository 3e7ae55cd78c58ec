import SplitDNS.Dns.Presentation
import SplitDNS.Mirror.Poller
import SplitDNS.Runs.Basic

/-! # Published serials

The serial in the start of authority of a zone over a run of poll cycles. Every
refresh makes the start of authority anew and writes the serial that the same
cycle observed into it, or leaves the initial one if it observed none. So the
serials go forward like the observed ones as long as no refresh succeeds without
the serial of the zone.
-/

namespace SplitDNS.Mirror

open Go Go.Strings Dns Model Config

def soaSerial (soa : Model.RR) : Option UInt32 :=
  let f := fields soa.content
  if f.length ≠ 7 then none else (f[2]?.bind (parseUint · 32)).map UInt32.ofNat

def serialOf (snap : Snapshot) (apex : Str) : Option UInt32 :=
  (snap.zones.lookup apex).join.bind fun z => soaSerial z.soa

theorem soaSerial_withSOASerial (soa : Model.RR) (s : UInt32) :
    soaSerial (withSOASerial soa s) =
      if (fields soa.content).length = 7 then some s else none := by
  unfold withSOASerial
  dsimp only
  by_cases hlen : (fields soa.content).length = 7
  · have hfields : ∀ f ∈ (fields soa.content).set 2 (formatUint s.toNat),
        f ≠ [] ∧ ∀ c ∈ f, isSpace c = false := by
      intro f hf
      rcases List.mem_or_eq_of_mem_set hf with hf | rfl
      · exact mem_fields hf
      · exact ⟨formatUint_ne_nil _, fun c hc => isSpace_of_isDigit (isDigit_of_mem_formatUint hc)⟩
    rw [if_neg (not_not.mpr hlen), if_pos hlen, soaSerial]
    dsimp only
    rw [fields_join hfields, List.length_set, if_neg (not_not.mpr hlen),
      List.getElem?_set_self (by omega), Option.bind_some, parseUint_formatUint s.toNat_lt,
      Option.map_some, UInt32.ofNat_toNat]
  · rw [if_pos hlen, if_neg hlen, soaSerial, if_pos hlen]

def Poll.seen (p : Poll) (cfg : Config) (apex : Str) : Option UInt32 :=
  (p.observed cfg).lookup (trimSuffix apex ['.'])

namespace Daemon

variable {newRR : NewRR} {d : Daemon} {p : Poll} {apex : Str}

def serialAt (d : Daemon) (apex : Str) : Option UInt32 := d.published.head?.bind (serialOf · apex)

def builds (newRR : NewRR) (d : Daemon) (s : Surroundings) : Except Str Snapshot :=
  buildSnapshot newRR s.tr d.cfg s.lister d.revZones s.ordZones s.ordStub

/-- A cycle publishes a snapshot with the serial of the zone that it observed. -/
def PublishesPolled (newRR : NewRR) (apex : Str) (d : Daemon) (p : Poll) : Prop :=
  ∃ s snap, p.seen d.cfg apex = some s ∧ (d.cycle newRR p).1.published = snap :: d.published ∧
    serialOf snap apex = some s

theorem cycle_cfg (d : Daemon) (p : Poll) : (d.cycle newRR p).1.cfg = d.cfg := by
  rcases @cycle_cases newRR d p with ⟨d', hr, heq⟩ | ⟨heq, -⟩
  · obtain ⟨snap, -, rfl⟩ := refresh_eq_ok hr
    rw [heq]
    rfl
  · rw [heq]

theorem cycle_published (newRR : NewRR) (d : Daemon) (p : Poll) (apex : Str) :
    (d.cycle newRR p).1.published = d.published ∨
      (d.builds newRR p.surroundings).isOk = true ∧
      ∃ snap, (d.cycle newRR p).1.published = snap :: d.published ∧
        ∀ s t, p.seen d.cfg apex = some s → serialOf snap apex = some t → t = s := by
  rcases @cycle_cases newRR d p with ⟨d', hr, heq⟩ | ⟨heq, -⟩
  · right
    obtain ⟨snap, hb, rfl⟩ := refresh_eq_ok hr
    refine ⟨by rw [builds, hb]; rfl, p.surroundings.finish (p.observed d.cfg) snap,
      by rw [heq]; rfl, ?_⟩
    intro s t hs ht
    rw [serialOf, Surroundings.finish, stampAll, Map.lookup_mapValues] at ht
    rcases hz : snap.zones.lookup apex with _ | _ | z
    · rw [hz] at ht
      cases ht
    · rw [hz] at ht
      cases ht
    · rw [hz] at ht
      change soaSerial (stamp (p.observed d.cfg) apex z).soa = some t at ht
      rw [Poll.seen] at hs
      rw [stamp, hs] at ht
      dsimp only at ht
      rw [soaSerial_withSOASerial] at ht
      split_ifs at ht
      exact (Option.some.inj ht).symm
  · left
    rw [heq]

/-- What is served of a zone once a polled serial was published for it was observed before. -/
structure Follows (newRR : NewRR) (cfg : Config) (apex : Str) (past : List (Daemon × Poll))
    (d : Daemon) : Prop where
  same : d.cfg = cfg
  observed : (∃ q ∈ past, PublishesPolled newRR apex q.1 q.2) →
    ∀ s, d.serialAt apex = some s → ∃ q ∈ past, q.2.seen cfg apex = some s

/-- If a serial is observed in every refresh, what a cycle serves was served before or observed by
it. -/
theorem serialAt_cycle (h : (p.seen d.cfg apex).isSome = true ∨
      (d.builds newRR p.surroundings).isOk = false) :
    (d.cycle newRR p).1.serialAt apex = d.serialAt apex ∨
      ∀ s, (d.cycle newRR p).1.serialAt apex = some s → p.seen d.cfg apex = some s := by
  rcases cycle_published newRR d p apex with hp | ⟨hb, snap, hp, hs⟩
  · exact Or.inl (by rw [serialAt, serialAt, hp])
  · right
    intro s hserial
    rw [serialAt, hp] at hserial
    rcases h with h | h
    · obtain ⟨t, ht⟩ := Option.isSome_iff_exists.mp h
      rw [ht, hs t s ht hserial]
    · rw [h] at hb
      cases hb

/-- No refresh that succeeds misses the serial of the zone once a polled one was published. -/
def Answered (newRR : NewRR) (apex : Str) (past : List (Daemon × Poll)) (d : Daemon) (p : Poll) :
    Prop :=
  (∃ q ∈ past, PublishesPolled newRR apex q.1 q.2) →
    (p.seen d.cfg apex).isSome = true ∨ (d.builds newRR p.surroundings).isOk = false

theorem Follows.step {cfg : Config} {past : List (Daemon × Poll)}
    (h : Follows newRR cfg apex past d) (ha : Answered newRR apex past d p) :
    Follows newRR cfg apex (past ++ [(d, p)]) (d.cycle newRR p).1 := by
  refine ⟨(cycle_cfg d p).trans h.same, ?_⟩
  rintro ⟨q, hq, hpub⟩ s hs
  have hlast : (d, p) ∈ past ++ [(d, p)] := List.mem_append_right _ List.mem_cons_self
  have hseen : p.seen d.cfg apex = some s → ∃ q ∈ past ++ [(d, p)], q.2.seen cfg apex = some s :=
    fun hsn => ⟨(d, p), hlast, h.same ▸ hsn⟩
  rcases List.mem_append.mp hq with hq | hq
  · rcases serialAt_cycle (ha ⟨q, hq, hpub⟩) with hsame | hnew
    · obtain ⟨q', hq', hs'⟩ := h.observed ⟨q, hq, hpub⟩ s (hsame ▸ hs)
      exact ⟨q', List.mem_append_left _ hq', hs'⟩
    · exact hseen (hnew s hs)
  · rw [List.mem_singleton.mp hq] at hpub
    obtain ⟨t, snap, ht, hp, hsnap⟩ := hpub
    have hst : some t = some s := by
      rw [← hs, serialAt, hp, ← hsnap]
      rfl
    exact hseen (ht.trans hst)

theorem serialLt_self (s : UInt32) : serialLt s s = false := by simp [serialLt]

/-- The serial of a zone does not go back once a polled one was published for it. -/
theorem serials_go_forward (newRR : NewRR) (d₀ : Daemon) (apex : Str) (ps : List Poll)
    (hforward : ps.Pairwise fun p q => ∀ s t, p.seen d₀.cfg apex = some s →
      q.seen d₀.cfg apex = some t → serialLt t s = false)
    (hanswered : Runs.Always (fun d p => (cycle newRR d p).1) d₀ (Answered newRR apex) ps) :
    Runs.Always (fun d p => (cycle newRR d p).1) d₀ (fun past d p =>
      (∃ q ∈ past, PublishesPolled newRR apex q.1 q.2) → ∀ s t, d.serialAt apex = some s →
        (d.cycle newRR p).1.serialAt apex = some t → serialLt t s = false) ps := by
  have hpair := @Runs.always_of_pairwise _ _ (fun d p => (cycle newRR d p).1) d₀ _ ps hforward
  refine @Runs.always_of_inv _ _ _ _ (Follows newRR d₀.cfg apex) _ _ ⟨rfl, ?_⟩ ?_ ?_ _
    (hanswered.and hpair)
  · rintro ⟨q, hq, -⟩
    cases hq
  · exact fun past d p h hok => h.step hok.1
  · rintro past d p h ⟨ha, hold⟩ hpub s t hs ht
    rcases serialAt_cycle (ha hpub) with hsame | hnew
    · rw [hsame, hs] at ht
      cases ht
      exact serialLt_self s
    · obtain ⟨q, hq, hseen⟩ := h.observed hpub s hs
      exact hold q hq s t hseen (h.same ▸ hnew t ht)

def twoZones : ZoneLister where
  zones := .ok (Map.ofList [("1".toList, "a.test".toList), ("2".toList, "b.test".toList)])
  allRecords _ := .ok []

def mirroring : Daemon :=
  { cfg := { zones := { localZones := ["a.test".toList, "b.test".toList] } } }

def pollOf (a b : Option UInt32) : Poll where
  serials := [a, b]
  now := 0
  done := 0
  surroundings := { lister := some twoZones, tr := fun _ => .error [], now := 0 }

/-- The serials of a zone that is always answered go forward. -/
theorem serials_go_forward_answered : ∃ s t,
    ((mirroring.cycle readLine (pollOf (some 2026010101) none)).1).serialAt
      "a.test.".toList = some s ∧
    (((mirroring.cycle readLine (pollOf (some 2026010101) none)).1.cycle readLine
      (pollOf (some 2026010102) (some 6))).1).serialAt "a.test.".toList = some t ∧
    serialLt t s = false := by
  refine ⟨2026010101, 2026010102, by decide, by decide, ?_⟩
  refine serials_go_forward readLine mirroring "a.test.".toList
    [pollOf (some 2026010101) none, pollOf (some 2026010102) (some 6)] ?_ ?_
    [pollOf (some 2026010101) none] _ [] rfl ⟨_, List.mem_cons_self, _, _, rfl, rfl, ?_⟩ _ _
    (by decide) (by decide)
  · refine List.pairwise_pair.mpr fun s t hs ht => ?_
    change some 2026010101 = some s at hs
    change some 2026010102 = some t at ht
    cases hs
    cases ht
    decide
  · exact Runs.always_cons.mpr ⟨fun _ => Or.inl (by decide),
      Runs.always_cons.mpr ⟨fun _ => Or.inl (by decide), Runs.always_nil⟩⟩
  · decide

/-- A refresh for another zone takes the polled serial of a zone back to the initial one. -/
theorem serial_taken_back :
    (((mirroring.cycle readLine (pollOf (some 2026010101) (some 5))).1).serialAt
        "a.test.".toList = some 2026010101 ∧
      (((mirroring.cycle readLine (pollOf (some 2026010101) (some 5))).1.cycle readLine
        (pollOf none (some 6))).1).serialAt "a.test.".toList = some 1) ∧
    serialLt 1 2026010101 = true := by
  decide

end Daemon

end SplitDNS.Mirror
