import SplitDNS.Resolver.Taint

/-! # The apex of a zone

A built zone keeps its start of authority apart from its records, and its apex
is a node only by the records and tunnel addresses stored there. A query for the
apex is therefore treated like one for any other owner: without anything stored
there it is denied or answered from the wildcard, and the start of authority is
never in an answer.
-/

namespace SplitDNS.Resolver

open Go Go.Netip Go.Strings Dns Model Mirror

variable {newRR : NewRR} {snap : Snapshot} {view : MDNSView} {req resp m : Msg} {z : Zone}
  {name owner apex : Str} {q : RRType} {qu : Question} {rr : Dns.RR}

/-- A record for the apex that is not the wildcard's: its own, one of the redirect, or one that the
overlay knows. -/
inductive ApexRecord (newRR : NewRR) (snap : Snapshot) (view : MDNSView) (z : Zone) (apex : Str) :
    Dns.RR → Prop
  | own {rr : Dns.RR} : OwnRecord newRR z apex [] rr → ApexRecord newRR snap view z apex rr
  | redirect {p : RRType × Addr} : isVHostCandidate snap apex [] = true →
    p ∈ [(typeA, snap.vhostV4), (typeAAAA, snap.vhostV6)] →
    ApexRecord newRR snap view z apex (addrRR newRR apex p.1 p.2.string vhostTTL)
  | overlay {r : Model.RR} : Overlaid snap view apex [] → r ∈ localScopeAddrs (forwardOf view []) →
    ApexRecord newRR snap view z apex (toRR newRR r apex)

/-- A query for the apex is answered as one for a name that exists: it is not denied, the zone gives
no record of its wildcard, and the start of authority is found. -/
structure ApexAnswered (newRR : NewRR) (snap : Snapshot) (view : MDNSView) (req : Msg) (q : RRType)
    (z : Zone) (apex : Str) : Prop where
  named : ∀ m, (resolve newRR snap view req).msg = some m → m.rcode ≠ .nameError
  own : ReachesZone snap apex apex → ∀ m, (resolve newRR snap view req).msg = some m →
    ∀ rr ∈ m.answer, ApexRecord newRR snap view z apex rr
  soa : q = typeSOA → ∃ m rec, (resolve newRR snap view req).msg = some m ∧
    toRR newRR z.soa apex = some rec ∧ some rec ∈ m.answer

section Denial

theorem not_nameError_iff (hq : req.question = [qu]) :
    (∀ m, (resolve newRR snap view req).msg = some m → m.rcode ≠ .nameError) ↔
      ¬ Absent snap view (queryName qu) := by
  constructor
  · intro h habs
    obtain ⟨m, hm⟩ := @exists_msg_of_absent newRR snap view req qu hq habs
    exact h m hm ((resolve_denies hq hm).iff.mpr habs)
  · intro h m hm hcode
    exact h ((resolve_denies hq hm).iff.mp hcode)

theorem not_tainted_apex (hn : ['.'] <:+ apex) (h : ReachesZone snap apex apex) :
    (recoverLocalHost snap apex).tainted = false := by
  by_contra ht
  have hl := localLabel_eq_none_iff_not_underLocal.mpr h.underLocal
  have hdot := dot_mem_owner_of_tainted hn hl (by simpa using ht)
  rw [h.apex, relativeOwner_self] at hdot
  cases hdot

/-- A zone's apex is absent iff it is not redirected, nothing is stored there, the overlay does not
know it, and there is no wildcard. -/
theorem absent_apex_iff (hn : ['.'] <:+ apex) (h : ReachesZone snap apex apex)
    (hz : snap.zones.lookup apex = some (some z)) (he : [] ∉ z.ent) : Absent snap view apex ↔
      ¬ isVHostCandidate snap apex [] = true ∧ [] ∉ z.records ∧ [] ∉ z.tunnelAddr ∧
        ¬ Overlaid snap view apex [] ∧ ¬ z.HasWildcard := by
  have hne : apex ≠ [] := by
    rintro rfl
    simp at hn
  have ht := not_tainted_apex hn h
  have habs : Absent snap view apex ↔ ApexAbsent snap view apex apex := by
    rw [Absent, h.apex, localLabel_eq_none_iff_not_underLocal.mpr h.underLocal]
    simp [h.special, h.arpa, h.stub, hne]
  rw [habs, ApexAbsent, relativeOwner_self, Bool.not_eq_true]
  refine and_congr_right fun _ => ?_
  constructor
  · rintro ⟨z', hz', hr, hta, -, hover, -, hwild⟩
    obtain rfl := Option.some.inj (Option.some.inj (hz.symm.trans hz'))
    exact ⟨hr, hta, fun ho => ho.2 (hover ho.1), hwild ht⟩
  · rintro ⟨hr, hta, hover, hwild⟩
    refine ⟨z, hz, hr, hta, he, fun hd => ?_, fun ht' => ?_, fun _ => hwild⟩
    · exact not_not.mp fun hne => hover ⟨hd, hne⟩
    · rw [ht] at ht'
      cases ht'

end Denial

section Records

theorem mem_vhostReply_apex (hv : isVHostCandidate snap apex [] = true)
    (h : rr ∈ (vhostReply newRR snap req apex [] q (some z)).answer) :
    ApexRecord newRR snap view z apex rr := by
  rw [answer_vhostReply, vhostAnswer, List.mem_append] at h
  rcases h with h | h
  · obtain ⟨p, hp, rfl⟩ := List.mem_map.mp h
    exact .redirect hv (List.mem_of_mem_filter hp)
  · obtain ⟨p, hp, hrr⟩ := List.mem_flatMap.mp h
    obtain ⟨r, hr, rfl⟩ := exists_of_mem_render hrr
    -- what the apex inherits is stored there
    have hstored : ∃ t, r ∈ rrsetOf (z.records.lookup []) t := by
      unfold unstripped at hp
      split_ifs at hp
      · refine ⟨p.1, ?_⟩
        rw [← rrsetOf_getD]
        exact mem_rrsetOf_iff.mpr ⟨p, List.mem_of_mem_filter hp, rfl, hr⟩
      · cases hp
      · obtain rfl := List.mem_singleton.mp hp
        refine ⟨q, ?_⟩
        rwa [rrsetOf_getD] at hr
    obtain ⟨t, ht⟩ := hstored
    exact .own (.stored ht)

theorem mem_answerZone_of_node (h : [] ∈ z.records ∨ [] ∈ z.tunnelAddr)
    (hrr : rr ∈ (answerZone newRR snap view req z apex [] q).answer) :
    ApexRecord newRR snap view z apex rr := by
  rw [answerZone_of_published h] at hrr
  simp only [← AList.lookup_isSome] at h
  exact .own ((@answerInZone_of_exists newRR { reply req with authoritative := true } z apex [] q
    rfl rfl (h.imp_right Or.inl)).2 rr hrr)

/-- Where nothing is stored at the apex, the answer has no record of the wildcard iff each record
that is inherited is one of the overlay, or nothing is synthesized. -/
theorem answerZone_apex_iff (hn : ['.'] <:+ apex) (hreach : ReachesZone snap apex apex)
    (hv : ¬ isVHostCandidate snap apex [] = true) (hr : [] ∉ z.records) (ht : [] ∉ z.tunnelAddr)
    (he : [] ∉ z.ent) :
    (∀ rr ∈ (answerZone newRR snap view req z apex [] q).answer,
        ApexRecord newRR snap view z apex rr) ↔
      if Overlaid snap view apex [] then ∀ rr ∈ renderSets newRR (inherited z q) apex,
        ∃ r ∈ localScopeAddrs (forwardOf view []), toRR newRR r apex = rr
      else renderSets newRR (synthesized z q) apex = [] := by
  have hiff : ∀ rr, ApexRecord newRR snap view z apex rr ↔ Overlaid snap view apex [] ∧
      ∃ r ∈ localScopeAddrs (forwardOf view []), toRR newRR r apex = rr := by
    intro rr
    constructor
    · rintro (h | ⟨h, -⟩ | ⟨ho, h⟩)
      · exact absurd h (not_ownRecord_of_absent hr ht)
      · exact absurd h hv
      · exact ⟨ho, _, h, rfl⟩
    · rintro ⟨ho, r, h, rfl⟩
      exact .overlay ho h
  rw [answerZone_of_absent hr ht he, not_tainted_apex hn hreach]
  simp only [hiff, Bool.false_eq_true, if_false]
  split_ifs with hover
  · simp only [hover, true_and, answer_mdnsZoneReply, List.forall_mem_append]
    refine and_iff_right fun rr hrr => ?_
    split_ifs at hrr
    · exact exists_of_mem_render hrr
    · cases hrr
  · simp only [hover, false_and, answer_wildcardOrNX]
    exact List.eq_nil_iff_forall_not_mem.symm

end Records

section Authority

def LacksSOA (z : Zone) : Prop :=
  (∀ o, rrsetOf (z.records.lookup o) typeSOA = []) ∧ rrsetOf (some z.wildcards) typeSOA = []

theorem lacksSOA_buildZone {zoneID : Str} {tunnelSuffixes : List Str} {recs : List CFAPI.Record}
    {tr : TunnelResolver} {soa : Model.RR} :
    LacksSOA { buildZone newRR apex zoneID tunnelSuffixes recs tr with soa := soa } := by
  constructor
  · intro o
    refine List.eq_nil_iff_forall_not_mem.mpr fun r hr => ?_
    exact absurd (mem_buildZone_rrset hr).2.1 (by decide)
  · refine List.eq_nil_iff_forall_not_mem.mpr fun r hr => ?_
    exact absurd (mem_buildZone_wildcards hr).2.1 (by decide)

theorem answer_answerInZone_soa (hsoa : LacksSOA z) (ha : resp.answer = []) :
    (answerInZone newRR resp z name [] typeSOA).answer = [] := by
  have hwild : (wildcardOrNX newRR resp z name typeSOA).answer = [] := by
    have haddr : ¬ (typeSOA = typeA ∨ typeSOA = typeAAAA) := by decide
    rw [answer_wildcardOrNX, ha, synthesized, if_neg (by decide), if_neg fun h => haddr h.1, hsoa.2]
    rfl
  simp only [answerInZone, hsoa.1, show typeSOA ≠ typeCNAME by decide,
    show typeSOA ≠ typeA by decide, show typeSOA ≠ typeAAAA by decide,
    show typeSOA ≠ typeANY by decide, absentType]
  simp only [if_false, decide_false, Bool.or_false, Bool.false_and, Bool.false_eq_true, ne_eq,
    not_true_eq_false]
  split_ifs
  · rw [answer_setNegativeSOA, ha]
  · exact hwild

theorem answer_answerZoneOrVHost_soa (hz : snap.zones.lookup apex = some (some z))
    (hsoa : LacksSOA z) :
    (answerZoneOrVHost newRR snap view req apex apex typeSOA).answer = [] := by
  simp only [answerZoneOrVHost, hz, Option.join_some, relativeOwner_self]
  split_ifs
  · rw [answer_vhostReply, vhostAnswer, unstripped, if_neg (by decide), if_neg (by decide),
      rrsetOf_getD]
    simp only [vhostInherited, Option.bind_some, if_true, hsoa.1]
    rfl
  · unfold answerZone
    dsimp only
    split_ifs
    · rw [answer_mdnsZoneReply, if_neg (by decide), inherited, if_neg (by decide),
        if_neg (by decide), hsoa.2]
      rfl
    · rcases (recoverLocalHost snap apex).host with _ | host
      · exact answer_setNegativeSOA _ _ _
      · unfold localRecoveredZoneReply fillLocalAddrs
        simp only [show typeSOA ≠ typeA by decide, show typeSOA ≠ typeAAAA by decide,
          show typeSOA ≠ typeANY by decide, if_false]
        split_ifs <;> simp [reply, setReply]
    · exact answer_answerInZone_soa hsoa rfl

theorem answerDNSSD_soa {label : Str} (h : answerDNSSD view resp name label typeSOA = some m) :
    m = resp := by
  have hsame : ∀ (resp : Msg) (t : RRType) (data : RData) (name : Str) (ttl : UInt32),
      t ≠ typeSOA → sdAppend resp typeSOA t data name ttl = resp := by
    intro resp t data name ttl ht
    rw [sdAppend, if_neg]
    simpa [show typeSOA ≠ typeANY by decide] using ht.symm
  have hservice : ∀ (resp : Msg) (name target : Str) (ttl : UInt32) (s : MDNSService),
      appendService resp typeSOA name target ttl s = resp := by
    intro resp name target ttl s
    unfold appendService
    dsimp only
    rw [hsame _ _ _ _ _ (by decide), hsame _ _ _ _ _ (by decide), ite_self]
  unfold answerDNSSD at h
  dsimp only at h
  split at h
  · cases h
  · simp only [hservice, List.foldl_fixed] at h
    exact (Option.some.inj h).symm
  · simp only [hsame _ typePTR _ _ _ (by decide), List.foldl_fixed] at h
    exact (Option.some.inj h).symm

theorem answer_answerLocal_soa {label : Str}
    (h : (answerLocal newRR snap view req name label typeSOA).msg = some m) : m.answer = [] := by
  unfold answerLocal at h
  dsimp only at h
  split at h
  next msg hmsg =>
    cases h
    split_ifs at hmsg
    rw [answerDNSSD_soa hmsg]
    rfl
  · unfold answerLocalHost fillLocalAddrs at h
    simp only [show typeSOA ≠ typeA by decide, show typeSOA ≠ typeAAAA by decide,
      show typeSOA ≠ typeANY by decide, if_false] at h
    split at h
    · cases h
      rfl
    · split_ifs at h
      all_goals
        cases h
        rfl

theorem answer_resolve_soa (hq : req.question = [qu]) (hty : qu.qtype = typeSOA)
    (hz : snap.zones.lookup (queryName qu) = some (some z)) (hsoa : LacksSOA z)
    (hs : ¬ Special snap (queryName qu)) (hm : (resolve newRR snap view req).msg = some m) :
    m.answer = [] := by
  have hmem := Map.mem_of_lookup hz
  have hne : queryName qu ≠ [] :=
    List.ne_nil_of_mem ((dot_suffix_queryName qu).subset (List.mem_singleton_self '.'))
  have hapex : longestZoneSuffix (queryName qu) snap.zones = queryName qu :=
    longestSuffix_eq (AList.mem_keys.mp hmem) (Or.inl rfl) hne fun a _ ha => ha.suffix.length_le
  rw [resolve_of_not_special hq hs, hty, hapex] at hm
  by_cases harpa : isArpa (queryName qu) = true
  · rw [if_pos harpa] at hm
    unfold answerReverse at hm
    split at hm
    · cases hm
    · simp only [show typeSOA ≠ typePTR by decide, show typeSOA ≠ typeANY by decide, decide_false,
        Bool.or_false, Bool.false_eq_true, if_false, ne_eq, not_true_eq_false] at hm
      cases hm
      exact answer_setNegativeSOA _ _ _
  rw [if_neg harpa] at hm
  rcases hl : localLabel snap (queryName qu) with _ | label
  · rw [hl] at hm
    dsimp only at hm
    split_ifs at hm
    cases hm
    exact answer_answerZoneOrVHost_soa hz hsoa
  · rw [hl] at hm
    exact answer_answerLocal_soa hm

/-- A static record of the name is the start of authority. -/
def StaticSOA (newRR : NewRR) (snap : Snapshot) (name : Str) (soa : Model.RR) : Prop :=
  ¬ AtOrBelow name "resolver.arpa.".toList ∧ (∀ d ∈ snap.ddr, d.adn ≠ [] → name ≠ d.adn) ∧
    ∃ r ∈ (snap.static.lookup name).getD [], r.type = typeSOA ∧ r.Renders newRR (fqdn name) ∧
      toRR newRR r name = toRR newRR soa name

theorem specialReply_soa_iff {soa : Model.RR} :
    (∃ rec, toRR newRR soa name = some rec ∧
        some rec ∈ (specialReply newRR snap req name typeSOA).answer) ↔
      StaticSOA newRR snap name soa := by
  unfold specialReply StaticSOA
  split_ifs with hra
  · rw [atOrBelow_resolverArpa_iff] at hra
    refine iff_of_false ?_ fun h => h.1 hra
    rintro ⟨rec, -, hmem⟩
    unfold resolverArpa at hmem
    dsimp only at hmem
    split at hmem
    · cases hmem
    · have hty : (decide (typeSOA ≠ typeSVCB) && decide (typeSOA ≠ typeANY)) = true := by decide
      rw [hty, Bool.or_true, if_pos rfl] at hmem
      cases hmem
  rw [atOrBelow_resolverArpa_iff] at hra
  split
  next d hd =>
    obtain ⟨hmem, hne, hname⟩ := filter_adn_eq_some.mp hd
    refine iff_of_false ?_ fun h => h.2.1 d hmem hne hname
    rintro ⟨rec, -, hrec⟩
    simp [ddrADNReply, show typeSOA ≠ typeA by decide, show typeSOA ≠ typeAAAA by decide,
      show typeSOA ≠ typeANY by decide] at hrec
  next hd =>
    have hadn : ∀ d ∈ snap.ddr, d.adn ≠ [] → name ≠ d.adn := by
      intro d hmem hne hname
      rw [filter_adn_eq_some.mpr ⟨hmem, hne, hname⟩] at hd
      cases hd
    rw [and_iff_right hra, and_iff_right hadn]
    constructor
    · rintro ⟨rec, hrec, hmem⟩
      obtain ⟨r, hr, htype, hrenders, hr'⟩ := mem_render_iff.mp hmem
      exact ⟨r, hr, htype.resolve_left (by decide), hrenders, hr'.trans hrec.symm⟩
    · rintro ⟨r, hr, htype, hrenders, heq⟩
      rcases hrec : toRR newRR r name with _ | rec
      · exact absurd hrenders (toRR_eq_none_iff.mp hrec)
      · exact ⟨rec, heq ▸ hrec, mem_render_iff.mpr ⟨r, hr, Or.inr htype, hrenders, hrec⟩⟩

theorem resolve_soa_iff (hq : req.question = [qu]) (hty : qu.qtype = typeSOA)
    (hz : snap.zones.lookup (queryName qu) = some (some z)) (hsoa : LacksSOA z) :
    (∃ m rec, (resolve newRR snap view req).msg = some m ∧
        toRR newRR z.soa (queryName qu) = some rec ∧ some rec ∈ m.answer) ↔
      StaticSOA newRR snap (queryName qu) z.soa := by
  by_cases hs : Special snap (queryName qu)
  · rw [resolve_of_special hq hs, hty, ← @specialReply_soa_iff newRR snap req]
    constructor
    · rintro ⟨m, rec, hm, hrec, hmem⟩
      cases hm
      exact ⟨rec, hrec, hmem⟩
    · rintro ⟨rec, hrec, hmem⟩
      exact ⟨_, rec, rfl, hrec, hmem⟩
  · refine iff_of_false ?_ ?_
    · rintro ⟨m, rec, hm, -, hmem⟩
      rw [answer_resolve_soa hq hty hz hsoa hs hm] at hmem
      cases hmem
    · rintro ⟨-, -, r, hr, -⟩
      have hnone : snap.static.lookup (queryName qu) = none :=
        AList.lookup_eq_none.mpr fun h => hs (Or.inr (Or.inr h))
      rw [hnone] at hr
      cases hr

end Authority

theorem apexAnswered_iff_not_absent (hq : req.question = [qu])
    (hz : snap.zones.lookup (queryName qu) = some (some z)) (hlacks : LacksSOA z) :
    ApexAnswered newRR snap view req qu.qtype z (queryName qu) ↔
      (qu.qtype = typeSOA → StaticSOA newRR snap (queryName qu) z.soa) ∧
      ¬ Absent snap view (queryName qu) ∧ (ReachesZone snap (queryName qu) (queryName qu) →
        ∀ m, (resolve newRR snap view req).msg = some m →
          ∀ rr ∈ m.answer, ApexRecord newRR snap view z (queryName qu) rr) := by
  constructor
  · rintro ⟨hnamed, hown, hsoa⟩
    exact ⟨fun hty => (resolve_soa_iff hq hty hz hlacks).mp (hsoa hty),
      (not_nameError_iff hq).mp hnamed, hown⟩
  · rintro ⟨hsoa, hnamed, hown⟩
    exact ⟨(not_nameError_iff hq).mpr hnamed, hown,
      fun hty => (resolve_soa_iff hq hty hz hlacks).mpr (hsoa hty)⟩

/-- The query is answered as one for a name that exists iff it does not ask for the start of
authority, and the apex is redirected, or a node, or gets nothing from the wildcard but that it is
not denied. -/
theorem apexAnswered_iff (hq : req.question = [qu]) (hname : queryName qu = apex)
    (hz : snap.zones.lookup apex = some (some z)) (he : [] ∉ z.ent) (hlacks : LacksSOA z) :
    ApexAnswered newRR snap view req qu.qtype z apex ↔
      (qu.qtype = typeSOA → StaticSOA newRR snap apex z.soa) ∧
      (ReachesZone snap apex apex ∧
          (isVHostCandidate snap apex [] = true ∨ [] ∈ z.records ∨ [] ∈ z.tunnelAddr ∨
            if Overlaid snap view apex [] then ∀ rr ∈ renderSets newRR (inherited z qu.qtype) apex,
              ∃ r ∈ localScopeAddrs (forwardOf view []), toRR newRR r apex = rr
            else z.HasWildcard ∧ Silent newRR (synthesized z qu.qtype) apex) ∨
        ¬ ReachesZone snap apex apex ∧ ¬ Absent snap view apex) := by
  subst hname
  have hn := dot_suffix_queryName qu
  have hne : queryName qu ≠ [] := List.ne_nil_of_mem (hn.subset (List.mem_singleton_self '.'))
  rw [apexAnswered_iff_not_absent hq hz hlacks]
  refine and_congr_right fun _ => ?_
  by_cases hreach : ReachesZone snap (queryName qu) (queryName qu)
  · simp only [hreach, true_imp_iff, true_and, not_true_eq_false, false_and, or_false]
    rw [forall_msg_of_reachesZone hq hne hreach, absent_apex_iff hn hreach hz he]
    simp only [answerZoneOrVHost, hz, Option.join_some, relativeOwner_self]
    by_cases hv : isVHostCandidate snap (queryName qu) [] = true
    · rw [if_pos hv]
      exact iff_of_true ⟨fun h => h.1 hv, fun rr hrr => mem_vhostReply_apex hv hrr⟩ (Or.inl hv)
    rw [if_neg hv, or_iff_right hv]
    by_cases hnode : [] ∈ z.records ∨ [] ∈ z.tunnelAddr
    · refine iff_of_true ⟨fun h => ?_, fun rr hrr => mem_answerZone_of_node hnode hrr⟩ ?_
      · exact hnode.elim h.2.1 h.2.2.1
      · exact hnode.imp_right Or.inl
    obtain ⟨hr, ht⟩ := not_or.mp hnode
    rw [or_iff_right hr, or_iff_right ht, answerZone_apex_iff hn hreach hv hr ht he]
    split_ifs with hover
    · exact and_iff_right fun h => h.2.2.2.1 hover
    · rw [renderSets_eq_nil_iff]
      refine and_congr_left fun _ => ?_
      constructor
      · exact fun h => not_not.mp fun hw => h ⟨hv, hr, ht, hover, hw⟩
      · exact fun hw h => h.2.2.2.2 hw
  · simp only [hreach, false_imp_iff, and_true, false_and, false_or, not_false_eq_true, true_and]

/-- A query for the apex of a built zone is answered as one for a name that exists iff it does not
ask for the start of authority, and the apex has a record or a tunnel address, or is redirected, or
all that the wildcard does is keep it from being denied. -/
theorem resolve_apex_iff (newRR : NewRR) (zone zoneID : Str) (tunnelSuffixes : List Str)
    (recs : List CFAPI.Record) (tr : TunnelResolver) (soa : Model.RR) (snap : Snapshot)
    (view : MDNSView) (req : Msg) (q : Question) (apex : Str) (z : Zone)
    (hq : req.question = [q]) (hname : queryName q = apex) (hapex : apex = fqdn (toLower zone))
    (hbuilt : z = { buildZone newRR zone zoneID tunnelSuffixes recs tr with soa := soa })
    (hz : snap.zones.lookup apex = some (some z)) :
    ApexAnswered newRR snap view req q.qtype z apex ↔
      (q.qtype = typeSOA → StaticSOA newRR snap apex soa) ∧
      (ReachesZone snap apex apex ∧
          (isVHostCandidate snap apex [] = true ∨
            storedAt newRR apex zoneID tunnelSuffixes recs [] ≠ [] ∨
            Tunnelled newRR apex zoneID tunnelSuffixes recs [] ∧ tunnelRecords tr apex [] ≠ [] ∨
            if Overlaid snap view apex [] then ∀ rr ∈ renderSets newRR (inherited z q.qtype) apex,
              ∃ r ∈ localScopeAddrs (forwardOf view []), toRR newRR r apex = rr
            else wildcardRecords newRR apex zoneID tunnelSuffixes recs tr ≠ [] ∧
              Silent newRR (synthesized z q.qtype) apex) ∨
        ¬ ReachesZone snap apex apex ∧ ¬ Absent snap view apex) := by
  have he : [] ∉ z.ent := by
    rw [hbuilt]
    exact fun h => ((mem_buildZone_ent newRR zone zoneID tunnelSuffixes recs tr).mp h).1 rfl
  have hr : [] ∈ z.records ↔ storedAt newRR apex zoneID tunnelSuffixes recs [] ≠ [] := by
    rw [hbuilt, hapex]
    exact (mem_buildZone_records newRR zone zoneID tunnelSuffixes recs tr).trans
      (and_iff_right (by decide))
  have ht : [] ∈ z.tunnelAddr ↔ Tunnelled newRR apex zoneID tunnelSuffixes recs [] ∧
      tunnelRecords tr apex [] ≠ [] := by
    rw [hbuilt, hapex]
    exact mem_buildZone_tunnelAddr newRR zone zoneID tunnelSuffixes recs tr
  have hwild : z.HasWildcard ↔ wildcardRecords newRR apex zoneID tunnelSuffixes recs tr ≠ [] := by
    rw [hbuilt, hapex]
    exact hasWildcard_buildZone_iff
  have hlacks : LacksSOA z := by
    rw [hbuilt]
    exact lacksSOA_buildZone
  have hsoa : z.soa = soa := by rw [hbuilt]
  rw [apexAnswered_iff hq hname hz he hlacks, hr, ht, hwild, hsoa]

def apexAddress : List CFAPI.Record :=
  [{ type := "A".toList, name := "example.com".toList, content := "192.0.2.1".toList }]

def apexSite (recs : List CFAPI.Record) : Snapshot :=
  { zones := Map.ofList [("example.com.".toList,
      some (buildZone readLine "example.com".toList [] [] recs noTunnels))] }

/-- The apex of an empty zone is denied, the apex of a zone with a wildcard is answered from it, and
the start of authority is not found at an apex with a record. -/
theorem apex_not_answered :
    let ask recs t := (resolve readLine (apexSite recs) {} (ask "example.com.".toList t)).msg.map
      fun m => (m.rcode, m.answer.map (·.map (·.data)))
    ask [] typeA = some (.nameError, []) ∧
      ask (lanAndWildcard.drop 1) typeA = some (.success, [some (.a (.v4 0xC0000209))]) ∧
      ask apexAddress typeSOA = some (.success, []) := by
  decide +kernel

/-- The record of the apex answers a query for its type. -/
theorem apex_record_answered :
    ApexAnswered readLine (apexSite apexAddress) {} (ask "example.com.".toList typeA) typeA
      (buildZone readLine "example.com".toList [] [] apexAddress noTunnels)
      "example.com.".toList := by
  have hreach : ReachesZone (apexSite apexAddress) "example.com.".toList "example.com.".toList :=
    ⟨by decide, by decide, by decide, by decide, by decide⟩
  exact (resolve_apex_iff readLine "example.com".toList [] [] apexAddress noTunnels _
    (apexSite apexAddress) {} (ask "example.com.".toList typeA)
    ⟨"example.com.".toList, typeA, classINET⟩ "example.com.".toList _ rfl (by decide)
    (by decide) rfl rfl).mpr
      ⟨fun h => absurd h (by decide), Or.inl ⟨hreach, Or.inr (Or.inl (by decide))⟩⟩

end SplitDNS.Resolver
