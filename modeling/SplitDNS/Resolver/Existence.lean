import SplitDNS.Resolver.OwnRecords
import SplitDNS.Resolver.Routing
import SplitDNS.Resolver.Trust

/-! # Existence

Whether a name exists does not depend on the type that is asked for. Each part
of the pipeline that can deny a name does so exactly when the name is absent
from what this part serves, and a denial carries no records.
-/

namespace SplitDNS.Resolver

open Go Go.Netip Go.Strings Dns Model

/-- No address of the recovered host, if there is one, may be served. -/
def HostAbsent (snap : Snapshot) (view : MDNSView) (localScopeOnly : Bool) (host : Option Str) :
    Prop :=
  ∀ h ∈ host, (localHostAddrs snap view h localScopeOnly).1 = [] ∧
    (localHostAddrs snap view h localScopeOnly).2.1 = []

/-- The local plane knows neither a service discovery node nor a host of the name. -/
def LocalAbsent (snap : Snapshot) (view : MDNSView) (name label : Str) : Prop :=
  (snap.serveDNSSD = true → parseDNSSD label = none) ∧
    HostAbsent snap view false (recoverLocalHost snap name).host

/-- The zone has no node at the owner, the overlay does not know it, and it is either spelled with
a local suffix and no known host, or not and there is no wildcard. -/
structure ZoneAbsent (snap : Snapshot) (view : MDNSView) (z : Zone) (name owner : Str) : Prop where
  records : owner ∉ z.records
  tunnelAddr : owner ∉ z.tunnelAddr
  ent : owner ∉ z.ent
  overlay : name ∉ snap.ddnsEligible → localScopeAddrs (forwardOf view owner) = []
  host : (recoverLocalHost snap name).tainted = true →
    HostAbsent snap view true (recoverLocalHost snap name).host
  wildcard : (recoverLocalHost snap name).tainted = false → ¬ z.HasWildcard

variable {newRR : NewRR} {snap : Snapshot} {view : MDNSView} {req resp : Msg} {q : RRType}
  {name owner label : Str} {z : Zone}

/-- A reply that denies exists iff the condition holds, and then it has no records. -/
structure Denies (m : Msg) (absent : Prop) : Prop where
  iff : m.rcode = .nameError ↔ absent
  answer : absent → m.answer = []

theorem denies_of_success {absent : Prop} {m : Msg} (h : m.rcode = .success) (hno : ¬ absent) :
    Denies m absent :=
  ⟨iff_of_false (by rw [h]; decide) hno, fun ha => absurd ha hno⟩

theorem denies_of_nameError {absent : Prop} {m : Msg} (h : m.rcode = .nameError)
    (ha : m.answer = []) (hab : absent) : Denies m absent :=
  ⟨iff_of_true h hab, fun _ => ha⟩

@[simp] theorem rcode_fillLocalAddrs (v4 v6 : List Model.RR) :
    (fillLocalAddrs newRR resp name q v4 v6).rcode = resp.rcode := by
  unfold fillLocalAddrs
  split_ifs <;> rfl

theorem answerDNSSD_eq_none_iff :
    answerDNSSD view resp name label q = none ↔ parseDNSSD label = none := by
  unfold answerDNSSD
  rcases parseDNSSD label with _ | node
  · exact iff_of_true rfl rfl
  · cases node <;> simp

theorem answerLocalHost_denies (hr : resp.rcode = .success) (ha : resp.answer = []) :
    ∃ m, (answerLocalHost newRR snap view resp name q).msg = some m ∧
      Denies m (HostAbsent snap view false (recoverLocalHost snap name).host) := by
  unfold answerLocalHost HostAbsent
  rcases (recoverLocalHost snap name).host with _ | host
  · exact ⟨_, rfl, denies_of_nameError rfl ha (by simp)⟩
  · dsimp only
    by_cases h : (decide ((localHostAddrs snap view host false).1 = []) &&
        decide ((localHostAddrs snap view host false).2.1 = [])) = true
    · rw [if_pos h]
      exact ⟨_, rfl, denies_of_nameError rfl ha (by simpa using h)⟩
    · rw [if_neg h]
      refine ⟨_, rfl, denies_of_success ?_ (by simpa using h)⟩
      rw [rcode_fillLocalAddrs, hr]

theorem answerLocal_denies : ∃ m, (answerLocal newRR snap view req name label q).msg = some m ∧
    Denies m (LocalAbsent snap view name label) := by
  unfold answerLocal LocalAbsent
  dsimp only
  split
  next msg hmsg =>
    have hsd : snap.serveDNSSD = true := by
      by_contra h
      simp [h] at hmsg
    rw [if_pos hsd] at hmsg
    refine ⟨msg, rfl, denies_of_success (addresses_answerDNSSD hmsg).2 fun h => ?_⟩
    rw [answerDNSSD_eq_none_iff.mpr (h.1 hsd)] at hmsg
    cases hmsg
  next hnone =>
    obtain ⟨m, hm, hd⟩ := @answerLocalHost_denies newRR snap view
      { reply req with authoritative := true } q name rfl rfl
    have hsd : snap.serveDNSSD = true → parseDNSSD label = none := fun h => by
      rwa [if_pos h, answerDNSSD_eq_none_iff] at hnone
    exact ⟨m, hm, hd.iff.trans (and_iff_right hsd).symm, fun h => hd.answer h.2⟩

theorem localRecoveredZoneReply_denies {host : Str} :
    Denies (localRecoveredZoneReply newRR snap view req name host q z)
      (HostAbsent snap view true (some host)) := by
  unfold localRecoveredZoneReply HostAbsent
  dsimp only
  split_ifs with h hnil
  · simp only [Bool.and_eq_true, decide_eq_true_eq] at h
    refine denies_of_nameError (rcode_setNegativeSOA _ _ _) ?_ (by simpa using h)
    rw [answer_setNegativeSOA]
    rfl
  · exact denies_of_success (rcode_setNegativeSOA _ _ _) (by simpa using h)
  · exact denies_of_success (rcode_fillLocalAddrs _ _) (by simpa using h)

/-- The overlay serves the owner as a host of the local network. -/
def Overlaid (snap : Snapshot) (view : MDNSView) (name owner : Str) : Prop :=
  name ∉ snap.ddnsEligible ∧ localScopeAddrs (forwardOf view owner) ≠ []

instance : Decidable (Overlaid snap view name owner) := inferInstanceAs (Decidable (_ ∧ _))

/-- The overlay answers for an owner that is not published, the search list for one that is not in
the zone at all, and the zone for the others. -/
theorem answerZone_eq_ite : answerZone newRR snap view req z name owner q =
    if (owner ∉ z.records ∧ owner ∉ z.tunnelAddr) ∧ Overlaid snap view name owner then
      mdnsZoneReply newRR z req name q (localScopeAddrs (forwardOf view owner))
    else if (recoverLocalHost snap name).tainted = true ∧ (owner ∉ z.records ∧
        owner ∉ z.tunnelAddr) ∧ owner ∉ z.ent then
      (recoverLocalHost snap name).host.elim (nxdomainZoneSOA newRR req z) fun host =>
        localRecoveredZoneReply newRR snap view req name host q z
    else answerInZone newRR { reply req with authoritative := true } z name owner q := by
  simp only [← AList.lookup_eq_none, ← Option.isNone_iff_eq_none, Overlaid, answerZone,
    Bool.and_eq_true, decide_eq_true_eq, and_assoc]
  rcases (recoverLocalHost snap name).host with _ | host <;> rfl

theorem answerZone_of_absent (hr : owner ∉ z.records) (ht : owner ∉ z.tunnelAddr)
    (he : owner ∉ z.ent) : answerZone newRR snap view req z name owner q =
      if Overlaid snap view name owner then
        mdnsZoneReply newRR z req name q (localScopeAddrs (forwardOf view owner))
      else if (recoverLocalHost snap name).tainted then
        (recoverLocalHost snap name).host.elim (nxdomainZoneSOA newRR req z) fun host =>
          localRecoveredZoneReply newRR snap view req name host q z
      else wildcardOrNX newRR { reply req with authoritative := true } z name q := by
  rw [answerZone_eq_ite, answerInZone_of_absent hr ht he]
  simp only [hr, ht, he, not_false_eq_true, true_and, and_true]

theorem answerZone_of_published (h : owner ∈ z.records ∨ owner ∈ z.tunnelAddr) :
    answerZone newRR snap view req z name owner q =
      answerInZone newRR { reply req with authoritative := true } z name owner q := by
  have hpub : ¬ (owner ∉ z.records ∧ owner ∉ z.tunnelAddr) := fun hno => h.elim hno.1 hno.2
  rw [answerZone_eq_ite, if_neg fun h => hpub h.1, if_neg fun h => hpub h.2.1]

theorem rcode_answerZone_of_exists
    (hex : owner ∈ z.records ∨ owner ∈ z.tunnelAddr ∨ owner ∈ z.ent) :
    (answerZone newRR snap view req z name owner q).rcode = .success := by
  rw [answerZone_eq_ite]
  split_ifs with hover hrec
  · exact rcode_mdnsZoneReply
  · obtain ⟨-, ⟨hr, ht⟩, he⟩ := hrec
    exact absurd hex (by simp [hr, ht, he])
  · simp only [← AList.lookup_isSome] at hex
    exact (@answerInZone_of_exists newRR { reply req with authoritative := true } z name _ q rfl
      rfl hex).1

theorem wildcardOrNX_denies (hr : resp.rcode = .success) (ha : resp.answer = []) :
    Denies (wildcardOrNX newRR resp z name q) (¬ z.HasWildcard) := by
  by_cases hw : z.HasWildcard
  · exact denies_of_success (rcode_wildcardOrNX_of_hasWildcard hw hr) (not_not_intro hw)
  · rw [wildcardOrNX_of_not_hasWildcard hw]
    refine denies_of_nameError (rcode_setNegativeSOA _ _ _) ?_ hw
    rw [answer_setNegativeSOA, ha]

theorem answerZone_denies : Denies (answerZone newRR snap view req z name owner q)
    (ZoneAbsent snap view z name owner) := by
  by_cases hex : owner ∈ z.records ∨ owner ∈ z.tunnelAddr ∨ owner ∈ z.ent
  · refine denies_of_success (rcode_answerZone_of_exists hex) fun h => ?_
    exact hex.elim h.records fun hex => hex.elim h.tunnelAddr h.ent
  obtain ⟨hr, hex⟩ := not_or.mp hex
  obtain ⟨ht, he⟩ := not_or.mp hex
  rw [answerZone_of_absent hr ht he]
  split_ifs with hover htaint
  · exact denies_of_success rcode_mdnsZoneReply fun h => hover.2 (h.overlay hover.1)
  all_goals
    have hno : name ∉ snap.ddnsEligible → localScopeAddrs (forwardOf view owner) = [] :=
      fun hn => not_not.mp fun hne => hover ⟨hn, hne⟩
  · have habs : ZoneAbsent snap view z name owner ↔
        HostAbsent snap view true (recoverLocalHost snap name).host :=
      ⟨fun h => h.host htaint, fun h => ⟨hr, ht, he, hno, fun _ => h, fun hf => by
        rw [htaint] at hf; cases hf⟩⟩
    rw [habs]
    rcases (recoverLocalHost snap name).host with _ | host
    · refine denies_of_nameError (rcode_setNegativeSOA _ _ _) ?_ (by simp [HostAbsent])
      rw [Option.elim_none, nxdomainZoneSOA, answer_setNegativeSOA]
      rfl
    · exact localRecoveredZoneReply_denies
  · have habs : ZoneAbsent snap view z name owner ↔ ¬ z.HasWildcard :=
      ⟨fun h => h.wildcard (by simpa using htaint), fun h =>
        ⟨hr, ht, he, hno, fun hf => absurd hf htaint, fun _ => h⟩⟩
    rw [habs]
    exact wildcardOrNX_denies rfl rfl

theorem isVHostCandidate_of_dot_mem {apex : Str} (h : '.' ∈ owner) :
    isVHostCandidate snap apex owner = false := by
  have hne : owner ≠ [] := List.ne_nil_of_mem h
  have hcount : 0 < owner.count '.' := List.count_pos_iff.mpr h
  have hlabels : 1 < labelCount owner := by
    rw [labelCount, if_neg hne]
    omega
  simp [isVHostCandidate, hne, hlabels]

/-- The name is absent from the zone, if it has one and is not redirected. -/
def ApexAbsent (snap : Snapshot) (view : MDNSView) (name apex : Str) : Prop :=
  isVHostCandidate snap apex (relativeOwner name apex) = false ∧
    ∃ z, snap.zones.lookup apex = some (some z) ∧
      ZoneAbsent snap view z name (relativeOwner name apex)

theorem answerZoneOrVHost_denies {apex : Str} :
    Denies (answerZoneOrVHost newRR snap view req name apex q)
      (ApexAbsent snap view name apex) := by
  unfold answerZoneOrVHost
  dsimp only
  split_ifs with hv
  · exact denies_of_success rcode_vhostReply fun h => Bool.false_ne_true (h.1.symm.trans hv)
  rw [Bool.not_eq_true] at hv
  have hnone : ∀ zone : Option (Option Zone), snap.zones.lookup apex = zone → zone.join = none →
      Denies (answerAuthoritative newRR req none name (relativeOwner name apex) q)
        (ApexAbsent snap view name apex) := by
    rintro zone hz hj
    refine ⟨iff_of_false (by simp [answerAuthoritative]) ?_, ?_⟩
    all_goals
      rintro ⟨-, z, hz', -⟩
      obtain rfl := hz.symm.trans hz'
      cases hj
  rcases hz : snap.zones.lookup apex with _ | _ | z
  · exact hnone _ hz rfl
  · exact hnone _ hz rfl
  · have hd := @answerZone_denies newRR snap view req q name (relativeOwner name apex) z
    have habs : ApexAbsent snap view name apex ↔
        ZoneAbsent snap view z name (relativeOwner name apex) := by
      constructor
      · rintro ⟨-, z', hz', h⟩
        obtain rfl := Option.some.inj (Option.some.inj (hz.symm.trans hz'))
        exact h
      · exact fun h => ⟨hv, z, hz, h⟩
    rw [habs]
    exact hd

/-- No step of the pipeline knows the name, and it is not one to be forwarded. -/
def Absent (snap : Snapshot) (view : MDNSView) (name : Str) : Prop :=
  ¬ Special snap name ∧ isArpa name = false ∧
    ((∃ label, localLabel snap name = some label ∧ LocalAbsent snap view name label) ∨
      localLabel snap name = none ∧ stubMatch snap name = [] ∧
        longestZoneSuffix name snap.zones ≠ [] ∧
        ApexAbsent snap view name (longestZoneSuffix name snap.zones))

section Pipeline

variable {qu : Question} {m : Msg}

theorem resolve_denies (hq : req.question = [qu])
    (h : (resolve newRR snap view req).msg = some m) :
    Denies m (Absent snap view (queryName qu)) := by
  by_cases hs : Special snap (queryName qu)
  · rw [resolve_of_special hq hs] at h
    cases h
    exact denies_of_success rcode_specialReply fun habs => habs.1 hs
  rw [resolve_of_not_special hq hs] at h
  by_cases harpa : isArpa (queryName qu) = true
  · rw [if_pos harpa] at h
    exact denies_of_success (rcode_answerReverse h) fun habs =>
      Bool.false_ne_true (habs.2.1.symm.trans harpa)
  rw [if_neg harpa] at h
  rw [Bool.not_eq_true] at harpa
  rw [Absent, and_iff_right hs, and_iff_right harpa]
  rcases hl : localLabel snap (queryName qu) with _ | label
  · rw [hl] at h
    dsimp only at h
    split_ifs at h with hstub hapex hany
    · cases h
      have hd := @answerZoneOrVHost_denies newRR snap view req qu.qtype (queryName qu)
        (longestZoneSuffix (queryName qu) snap.zones)
      simpa [not_not.mp hstub, hapex] using hd
    · cases h
      exact denies_of_success rfl (by simp [hapex])
  · obtain ⟨m', hm', hd⟩ := @answerLocal_denies newRR snap view req qu.qtype (queryName qu) label
    rw [hl] at h
    obtain rfl := Option.some.inj (h.symm.trans hm')
    simpa using hd

theorem exists_msg_of_absent (hq : req.question = [qu]) (h : Absent snap view (queryName qu)) :
    ∃ m, (resolve newRR snap view req).msg = some m := by
  obtain ⟨hs, harpa, ⟨label, hl, -⟩ | ⟨hl, hstub, hapex, -⟩⟩ := h
  · obtain ⟨m, hm, -⟩ := @answerLocal_denies newRR snap view req qu.qtype (queryName qu) label
    refine ⟨m, ?_⟩
    rw [resolve_of_not_special hq hs, if_neg (by simp [harpa]), hl]
    exact hm
  · rw [resolve_of_not_special hq hs, if_neg (by simp [harpa]), hl]
    dsimp only
    rw [if_neg (not_not_intro hstub), if_pos hapex]
    exact ⟨_, rfl⟩

end Pipeline

/-- A name that is denied for one type is denied for every type, without any records. -/
theorem resolve_nameError_all_types (newRR : NewRR) (snap : Snapshot) (view : MDNSView)
    (req req' m : Msg) (q q' : Question) (hq : req.question = [q]) (hq' : req'.question = [q'])
    (hname : queryName q' = queryName q) (hm : (resolve newRR snap view req).msg = some m)
    (hcode : m.rcode = .nameError) :
    m.answer = [] ∧ ∃ m', (resolve newRR snap view req').msg = some m' ∧ m'.rcode = .nameError ∧
      m'.answer = [] := by
  have hd := resolve_denies hq hm
  have habs := hd.iff.mp hcode
  obtain ⟨m', hm'⟩ := @exists_msg_of_absent newRR snap view req' q' hq' (hname ▸ habs)
  have hd' := resolve_denies hq' hm'
  rw [hname] at hd'
  exact ⟨hd.answer habs, m', hm', hd'.iff.mpr habs, hd'.answer habs⟩

/-- An unknown host of the local network is denied for all types at once. -/
theorem unknown_host_nameError :
    (resolve readLine lanSite {} (ask "nas.lan.".toList typeANY)).msg.map
      (fun m => (m.rcode, m.answer)) = some (.nameError, []) := by
  obtain ⟨m', hm', hcode, hans⟩ := (resolve_nameError_all_types readLine lanSite {}
    (ask "nas.lan.".toList typeA) (ask "nas.lan.".toList typeANY) _ _ _ rfl rfl rfl rfl
    (by decide)).2
  rw [hm', Option.map_some, hcode, hans]

end SplitDNS.Resolver
