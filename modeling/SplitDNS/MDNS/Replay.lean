import SplitDNS.MDNS.Tsig
import SplitDNS.Runs.Basic

/-! # Replayed signatures

A code is accepted once as long as the verifier forgets it only after its packet
has stopped verifying. Whether it does is up to the packets that follow: a small
fudge prunes the codes of packets with a larger one, and a full set remembers
nothing new.
-/

namespace SplitDNS.MDNS

open Go Dns

namespace SigVerifier

section FreshMAC

variable {v : SigVerifier} {mac : Str} {fudge : Duration} {now : Time}

theorem lookup_remembered {retain : Duration} {ts : Time} :
    (v.remembered retain now).lookup mac = some ts ↔
      v.seen.lookup mac = some ts ∧ now - ts ≤ retain := by
  rw [remembered, Map.lookup_deleteIf]
  refine Option.filter_eq_some_iff.trans (and_congr_right fun _ => ?_)
  simp

theorem freshMAC_snd :
    (v.freshMAC mac fudge now).2 = true ↔
      mac ≠ [] ∧ mac ∉ v.remembered (retention fudge) now := by
  unfold freshMAC
  by_cases hm : mac = []
  · simp [hm]
  · rw [if_neg hm]
    by_cases hd : mac ∈ v.remembered (retention fudge) now
    · simp [hd]
    · simp [hd, hm]

theorem lookup_freshMAC_of_remembered {mac' : Str} {ts : Time}
    (h : v.seen.lookup mac' = some ts) (hr : now - ts ≤ retention fudge) :
    (v.freshMAC mac fudge now).1.seen.lookup mac' = some ts := by
  have hrem := lookup_remembered.mpr ⟨h, hr⟩
  unfold freshMAC
  by_cases hm : mac = []
  · rw [if_pos hm]
    exact h
  · rw [if_neg hm]
    by_cases hd : mac ∈ v.remembered (retention fudge) now
    · simpa [hd] using hrem
    · have hne : mac' ≠ mac := by
        rintro rfl
        exact hd (Map.mem_of_lookup hrem)
      dsimp only
      rw [if_neg hd]
      split_ifs
      · rwa [AList.lookup_insert_ne hne]
      · exact hrem

theorem lookup_freshMAC_self (h : (v.freshMAC mac fudge now).2 = true)
    (hcap : (v.remembered (retention fudge) now).entries.length < tsigSeenCap) :
    (v.freshMAC mac fudge now).1.seen.lookup mac = some now := by
  obtain ⟨hm, hd⟩ := freshMAC_snd.mp h
  simp only [freshMAC, if_neg hm, if_neg hd, if_pos hcap, AList.lookup_insert]

end FreshMAC

structure Offer (B : Type*) where
  packet : B
  now : Time

variable {B : Type*} (scheme : TsigScheme B)

def step (v : SigVerifier) (o : Offer B) : SigVerifier := (v.verify scheme o.packet o.now).1

/-- The signature record of an offer that passes all checks but the one for replays. -/
def signature (p : SigVerifier × Offer B) : Option Tsig :=
  p.1.authenticate scheme p.2.packet p.2.now

def acceptedMAC (p : SigVerifier × Offer B) : Option Str :=
  if (p.1.verify scheme p.2.packet p.2.now).2 then (signature scheme p).map Tsig.mac else none

/-- A signed packet comes while an earlier one that is past its retention still verifies, or
finds the set of codes full. -/
def Forgets (past : List (SigVerifier × Offer B)) (v : SigVerifier) (o : Offer B) : Prop :=
  ∃ t ∈ signature scheme (v, o),
    (∃ p ∈ past, ∃ t' ∈ signature scheme p,
      retention (t.fudge.toNat * second) < o.now - p.2.now ∧
        unix o.now ≤ t'.closes (unix p.2.now)) ∨
    t.mac ∉ v.remembered (retention (t.fudge.toNat * second)) o.now ∧
      tsigSeenCap ≤ (v.remembered (retention (t.fudge.toNat * second)) o.now).entries.length

/-- Every accepted code is still in the set, or its packet has stopped verifying. -/
def Remembers (past : List (SigVerifier × Offer B)) (v : SigVerifier) : Prop :=
  (past.filterMap (acceptedMAC scheme)).Nodup ∧
    ∀ p ∈ past, ∀ t ∈ signature scheme p, (p.1.verify scheme p.2.packet p.2.now).2 = true →
      v.seen.lookup t.mac = some p.2.now ∨ ∃ q ∈ past, t.closes (unix p.2.now) < unix q.2.now

variable {scheme} {past : List (SigVerifier × Offer B)} {v : SigVerifier}
  {o : Offer B} {t t' : Tsig}
  {p : SigVerifier × Offer B}

theorem valid_of_signature (h : signature scheme p = some t) :
    scheme.tsig p.2.packet = some t ∧
      (∃ secret, scheme.macValid p.2.packet secret (unix p.2.now) = true) ∧
      t.inWindow (unix p.2.now) = true := by
  obtain ⟨ht, hs⟩ := Option.filter_eq_some_iff.mp h
  rcases hl : p.1.secrets.lookup (canonKeyName t.name) with _ | secret
  · rw [hl] at hs
    cases hs
  · rw [hl, Option.any_some, tsigVerify, ht, Option.any_some, Bool.and_eq_true] at hs
    exact ⟨ht, ⟨secret, hs.1⟩, hs.2⟩

theorem closes_eq_of_mac_eq {q : SigVerifier × Offer B} (h : signature scheme p = some t)
    (h' : signature scheme q = some t') (hm : t.mac = t'.mac) :
    t.closes (unix p.2.now) = t'.closes (unix q.2.now) := by
  obtain ⟨ht, ⟨s, hs⟩, -⟩ := valid_of_signature h
  obtain ⟨ht', ⟨s', hs'⟩, -⟩ := valid_of_signature h'
  obtain ⟨htime, hfudge⟩ := scheme.mac_binds ht hs ht' hs' hm
  rw [Tsig.closes, Tsig.closes, htime, hfudge]

theorem verify_of_signature (h : signature scheme (v, o) = some t) :
    v.verify scheme o.packet o.now = v.freshMAC t.mac (t.fudge.toNat * second) o.now := by
  rw [verify, show v.authenticate scheme o.packet o.now = some t from h]

theorem acceptedMAC_eq_some {m : Str} :
    acceptedMAC scheme p = some m ↔
      (p.1.verify scheme p.2.packet p.2.now).2 = true ∧ ∃ t ∈ signature scheme p, t.mac = m := by
  rw [acceptedMAC]
  split_ifs with h
  · rw [and_iff_right h]
    exact Option.map_eq_some_iff
  · simp [h]

theorem kept_or_closed (hinv : Remembers scheme past v) (hf : ¬ Forgets scheme past v o)
    (h : signature scheme (v, o) = some t) (hp : p ∈ past) (ht' : signature scheme p = some t')
    (hacc : (p.1.verify scheme p.2.packet p.2.now).2 = true) :
    v.seen.lookup t'.mac = some p.2.now ∧ o.now - p.2.now ≤ retention (t.fudge.toNat * second) ∨
      ∃ q ∈ past ++ [(v, o)], t'.closes (unix p.2.now) < unix q.2.now := by
  rcases hinv.2 p hp t' ht' hacc with hseen | ⟨q, hq, hclosed⟩
  · by_cases hr : retention (t.fudge.toNat * second) < o.now - p.2.now
    · refine Or.inr ⟨(v, o), by simp, ?_⟩
      by_contra hopen
      exact hf ⟨t, h, Or.inl ⟨p, hp, t', ht', hr, Int.not_lt.mp hopen⟩⟩
    · exact Or.inl ⟨hseen, Int.not_lt.mp hr⟩
  · exact Or.inr ⟨q, List.mem_append_left _ hq, hclosed⟩

theorem mac_ne_of_accepted (hinv : Remembers scheme past v) (hf : ¬ Forgets scheme past v o)
    (htime : ∀ q ∈ past, q.2.now ≤ o.now) (h : signature scheme (v, o) = some t)
    (hfresh : (v.verify scheme o.packet o.now).2 = true) (hp : p ∈ past)
    (ht' : signature scheme p = some t')
    (hacc : (p.1.verify scheme p.2.packet p.2.now).2 = true) : t'.mac ≠ t.mac := by
  intro hmac
  rcases kept_or_closed hinv hf h hp ht' hacc with ⟨hseen, hr⟩ | ⟨q, hq, hclosed⟩
  · rw [verify_of_signature h, freshMAC_snd] at hfresh
    have hrem := lookup_remembered.mpr ⟨hmac ▸ hseen, hr⟩
    exact hfresh.2 (Map.mem_of_lookup hrem)
  · have hle : unix q.2.now ≤ unix o.now := by
      rcases List.mem_append.mp hq with hq | hq
      · exact unix_le_unix (htime q hq)
      · obtain rfl := List.mem_singleton.mp hq
        exact Int.le_refl _
    have hopen : unix o.now ≤ t.closes (unix o.now) :=
      Tsig.le_closes_of_inWindow (valid_of_signature h).2.2
    rw [closes_eq_of_mac_eq ht' h hmac] at hclosed
    dsimp only at hclosed
    omega

theorem step_remembers (hinv : Remembers scheme past v) (hf : ¬ Forgets scheme past v o)
    (htime : ∀ q ∈ past, q.2.now ≤ o.now) :
    Remembers scheme (past ++ [(v, o)]) (step scheme v o) := by
  rcases h : signature scheme (v, o) with _ | t
  · have hv : v.verify scheme o.packet o.now = (v, false) := by
      rw [verify, show v.authenticate scheme o.packet o.now = none from h]
    have hno : acceptedMAC scheme (v, o) = none := by simp [acceptedMAC, hv]
    rw [step, hv]
    refine ⟨by simpa [List.filterMap_append, hno] using hinv.1, ?_⟩
    intro p hp t' ht' hacc
    rcases List.mem_append.mp hp with hp | hp
    · rcases hinv.2 p hp t' ht' hacc with hseen | ⟨q, hq, hclosed⟩
      · exact Or.inl hseen
      · exact Or.inr ⟨q, List.mem_append_left _ hq, hclosed⟩
    · rw [List.mem_singleton.mp hp, h] at ht'
      cases ht'
  · constructor
    · rw [List.filterMap_append, List.nodup_append]
      refine ⟨hinv.1, by cases ha : acceptedMAC scheme (v, o) <;> simp [ha], ?_⟩
      rintro m hm m' hm' rfl
      obtain ⟨p, hp, hpm⟩ := List.mem_filterMap.mp hm
      obtain ⟨hacc, t', ht', rfl⟩ := acceptedMAC_eq_some.mp hpm
      obtain ⟨q, hq, hqm⟩ := List.mem_filterMap.mp hm'
      rw [List.mem_singleton.mp hq] at hqm
      obtain ⟨hfresh, t'', ht'', hmac⟩ := acceptedMAC_eq_some.mp hqm
      obtain rfl := Option.some.inj (h.symm.trans ht'')
      exact mac_ne_of_accepted hinv hf htime h hfresh hp ht' hacc hmac.symm
    · intro p hp t' ht' hacc
      rw [step, verify_of_signature h]
      rcases List.mem_append.mp hp with hp | hp
      · rcases kept_or_closed hinv hf h hp ht' hacc with ⟨hseen, hr⟩ | hclosed
        · exact Or.inl (lookup_freshMAC_of_remembered hseen hr)
        · exact Or.inr hclosed
      · obtain rfl := List.mem_singleton.mp hp
        obtain rfl := Option.some.inj (h.symm.trans ht')
        rw [verify_of_signature h] at hacc
        refine Or.inl (lookup_freshMAC_self hacc ?_)
        by_contra hcap
        exact hf ⟨t, h, Or.inr ⟨(freshMAC_snd.mp hacc).2, not_lt.mp hcap⟩⟩

/-- In every run at non-decreasing times in which no packet makes the verifier forget, no code is
accepted twice. -/
theorem verify_accepts_once (scheme : TsigScheme B) (v : SigVerifier) (es : List (Offer B))
    (htime : es.Pairwise fun o o' => o.now ≤ o'.now)
    (h : Runs.Always (step scheme) v (fun past v o => ¬ Forgets scheme past v o) es) :
    ((Runs.trace (step scheme) v es).filterMap (acceptedMAC scheme)).Nodup := by
  have h₀ : Remembers scheme [] v := ⟨List.nodup_nil, by simp⟩
  exact (Runs.inv_of_always h₀ (fun past v o hinv hok => step_remembers hinv hok.1 hok.2)
    (h.and (Runs.always_of_pairwise htime))).1

section Runs

instance : DecidablePred (Forgets scheme past v) := fun _ => by unfold Forgets; infer_instance

/-- A packet of the named key, reduced to its signature. -/
def notify (timeSigned : ℕ) (fudge : UInt16) (mac : String) : Tsig :=
  ⟨"Splitdns-Notify.".toList, timeSigned, fudge, mac.toList⟩

def longLived : Tsig := notify 1000 300 "5d41"

def shortLived : Tsig := notify 1031 10 "7c2e"

def twoPackets : TsigScheme Tsig where
  tsig := some
  macValid b _ _ := b = longLived || b = shortLived
  mac_binds := by
    rintro b b' t t' s s' now now' ⟨⟩ hb ⟨⟩ hb' hm
    simp only [Bool.or_eq_true, decide_eq_true_eq] at hb hb'
    rcases hb with rfl | rfl <;> rcases hb' with rfl | rfl
    · exact ⟨rfl, rfl⟩
    · exact absurd hm (by decide)
    · exact absurd hm (by decide)
    · exact ⟨rfl, rfl⟩

def notifyVerifier : SigVerifier :=
  (newSigVerifier (Map.ofList [("splitdns-notify".toList, "c2VjcmV0".toList)]) default).getD ⟨∅, ∅⟩

def acceptedMACs (es : List (Offer Tsig)) : List Str :=
  (Runs.trace (step twoPackets) notifyVerifier es).filterMap (acceptedMAC twoPackets)

def promptReplay : List (Offer Tsig) :=
  [⟨longLived, 1000 * second⟩, ⟨longLived, 1010 * second⟩]

def lateReplay : List (Offer Tsig) :=
  [⟨longLived, 1000 * second⟩, ⟨shortLived, 1031 * second⟩, ⟨longLived, 1032 * second⟩]

theorem promptReplay_refused :
    acceptedMACs promptReplay = ["5d41".toList] ∧ (acceptedMACs promptReplay).Nodup :=
  ⟨by decide, verify_accepts_once twoPackets notifyVerifier promptReplay (by decide) (by decide)⟩

/-- The packet with the small fudge prunes the code of the first one while that still verifies. -/
theorem lateReplay_accepted :
    (lateReplay.Pairwise fun o o' => o.now ≤ o'.now) ∧ ¬ (acceptedMACs lateReplay).Nodup := by
  decide

end Runs

end SigVerifier

end SplitDNS.MDNS
