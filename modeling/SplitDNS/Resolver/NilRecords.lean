import SplitDNS.MDNS.View
import SplitDNS.Mirror.Snapshot
import SplitDNS.Resolver.Taint

/-! # Nil records

A record that does not render is nil, and the message it is in cannot be packed.
All parts of the resolver leave such records out except the redirect, which
appends what the rendering of a proxy address gives. An address of the wrong
family does not render, and nothing keeps the configuration from having one.
-/

namespace SplitDNS.Resolver

open Go Go.Netip Go.Strings Dns Model Mirror Config

structure Filled (m : Msg) : Prop where
  answer : none ∉ m.answer
  ns : none ∉ m.ns
  extra : none ∉ m.extra

variable {newRR : NewRR} {snap : Snapshot} {view : MDNSView} {req resp m : Msg} {z : Zone}
  {name owner apex label : Str} {q : RRType} {qu : Question}

section Parts

theorem none_notMem_render {recs : List Model.RR} : none ∉ render newRR recs name q := by
  intro h
  obtain ⟨r, -, -, hrenders, hnone⟩ := mem_render_iff.mp h
  exact toRR_eq_none_iff.mp hnone hrenders

theorem none_notMem_renderSets {sets : List RRset} : none ∉ renderSets newRR sets name := by
  intro h
  obtain ⟨p, -, hp⟩ := List.mem_flatMap.mp h
  exact none_notMem_render hp

theorem filled_reply : Filled { reply req with authoritative := true } :=
  ⟨List.not_mem_nil, List.not_mem_nil, List.not_mem_nil⟩

theorem filled_replyWith {l : List Dns.RR} (hl : none ∉ l) :
    Filled { reply req with authoritative := true, answer := l } :=
  ⟨hl, List.not_mem_nil, List.not_mem_nil⟩

theorem Filled.append {l : List Dns.RR} (h : Filled m) (hl : none ∉ l) :
    Filled { m with answer := m.answer ++ l } :=
  ⟨fun hmem => (List.mem_append.mp hmem).elim h.answer hl, h.ns, h.extra⟩

@[simp] theorem filled_appendMatching {recs : List Model.RR} (h : Filled resp) :
    Filled (appendMatching newRR resp recs name q) :=
  h.append none_notMem_render

@[simp] theorem filled_appendSets {m : RRsets} {skip : RRType → Bool} (h : Filled resp) :
    Filled (appendSets newRR resp m name skip) := by
  rw [appendSets_eq]
  exact h.append none_notMem_renderSets

@[simp] theorem filled_setNegativeSOA {soa : Model.RR} {rcode : Rcode} (h : Filled resp) :
    Filled (setNegativeSOA newRR resp soa apex rcode) := by
  unfold setNegativeSOA
  split_ifs
  · exact ⟨h.answer, h.ns, h.extra⟩
  · dsimp only
    split
    · refine ⟨h.answer, fun hmem => ?_, h.extra⟩
      exact (List.mem_append.mp hmem).elim h.ns (by simp)
    · exact ⟨h.answer, h.ns, h.extra⟩

end Parts

section Zones

theorem filled_chaseCNAME (steps : ℕ) (h : Filled resp) (owner name : Str) :
    Filled (chaseCNAME newRR z q steps resp owner name) := by
  induction steps generalizing resp owner name with
  | zero => exact h
  | succ steps ih =>
    unfold chaseCNAME
    split
    · exact h
    · dsimp only
      split_ifs
      · exact filled_appendMatching h
      · exact filled_appendMatching (filled_appendMatching h)
      · exact filled_appendMatching (filled_appendMatching h)
      · exact ih (filled_appendMatching h) _ _
      · exact filled_appendMatching h

theorem filled_wildcardOrNX (h : Filled resp) : Filled (wildcardOrNX newRR resp z name q) := by
  unfold wildcardOrNX
  dsimp only
  split_ifs <;> simp [h]

theorem filled_answerInZone (h : Filled resp) :
    Filled (answerInZone newRR resp z name owner q) := by
  have habsent : Filled (absentType newRR resp z name owner q) := by
    unfold absentType
    split_ifs
    · exact filled_setNegativeSOA h
    · exact filled_wildcardOrNX h
  exact answerInZone_cases Filled (fun _ => filled_appendMatching h) (filled_appendMatching h)
    (filled_chaseCNAME _ h _ _) (filled_appendSets (filled_appendSets h)) habsent

theorem filled_answerAuthoritative {zone : Option Zone} :
    Filled (answerAuthoritative newRR req zone name owner q) := by
  rcases zone with _ | z
  · exact ⟨List.not_mem_nil, List.not_mem_nil, List.not_mem_nil⟩
  · exact filled_answerInZone filled_reply

theorem filled_mdnsZoneReply {mrecs : List Model.RR} :
    Filled (mdnsZoneReply newRR z req name q mrecs) := by
  unfold mdnsZoneReply
  dsimp only
  split_ifs <;> simp [filled_reply]

theorem filled_fillLocalAddrs {v4 v6 : List Model.RR} (h : Filled resp) :
    Filled (fillLocalAddrs newRR resp name q v4 v6) := by
  unfold fillLocalAddrs
  split_ifs <;> simp [h]

theorem filled_localRecoveredZoneReply {host : Str} :
    Filled (localRecoveredZoneReply newRR snap view req name host q z) := by
  unfold localRecoveredZoneReply
  dsimp only
  split_ifs
  · exact filled_setNegativeSOA filled_reply
  · exact filled_setNegativeSOA (filled_fillLocalAddrs filled_reply)
  · exact filled_fillLocalAddrs filled_reply

theorem filled_answerZone : Filled (answerZone newRR snap view req z name owner q) := by
  unfold answerZone
  dsimp only
  split_ifs
  · exact filled_mdnsZoneReply
  · split
    · exact filled_localRecoveredZoneReply
    · exact filled_setNegativeSOA filled_reply
  · exact filled_answerAuthoritative

theorem filled_vhostNoData {zone : Option Zone} (h : Filled resp) :
    Filled (vhostNoData newRR resp zone) := by
  rcases zone with _ | z
  · exact h
  · exact filled_setNegativeSOA h

theorem filled_vhostReply_iff {zone : Option Zone} :
    Filled (vhostReply newRR snap req name owner q zone) ↔
      ∀ p ∈ proxyAddrs snap q, (addrRR newRR name p.1 p.2.string vhostTTL).isSome := by
  rcases vhostReply_cases zone with ⟨h, -⟩ | ⟨h, hproxy, -⟩
  · rw [h]
    constructor
    · rintro ⟨hans, -, -⟩ p hp
      refine Option.isSome_iff_ne_none.mpr fun hnone => hans (List.mem_append_left _ ?_)
      exact List.mem_map.mpr ⟨p, hp, hnone⟩
    · intro hsome
      refine filled_replyWith fun hmem => ?_
      rcases List.mem_append.mp hmem with hmem | hmem
      · obtain ⟨p, hp, hnone⟩ := List.mem_map.mp hmem
        exact Option.isSome_iff_ne_none.mp (hsome p hp) hnone
      · exact none_notMem_renderSets hmem
  · rw [h, hproxy]
    exact iff_of_true (filled_vhostNoData filled_reply) (by simp)

end Zones

section Planes

theorem filled_answerReverse (h : (answerReverse newRR snap view req name q).msg = some m) :
    Filled m := by
  unfold answerReverse at h
  split at h
  · cases h
  · dsimp only at h
    by_cases hq : (decide (q = typePTR) || decide (q = typeANY)) = true
    · rw [if_pos hq] at h
      split_ifs at h with hstatic hptr
      · cases h
        exact ⟨none_notMem_render, filled_reply.ns, filled_reply.extra⟩
      · cases h
        exact ⟨by simp, filled_reply.ns, filled_reply.extra⟩
      · cases h
        exact filled_setNegativeSOA filled_reply
    · rw [if_neg hq, if_neg (not_not_intro rfl)] at h
      cases h
      exact filled_setNegativeSOA filled_reply

theorem filled_sdAppend {t : RRType} {data : RData} {ttl : UInt32} (h : Filled resp) :
    Filled (sdAppend resp q t data name ttl) := by
  unfold sdAppend
  split_ifs
  · exact h.append (by simp)
  · exact h

theorem filled_answerDNSSD (hr : Filled resp) (h : answerDNSSD view resp name label q = some m) :
    Filled m := by
  unfold answerDNSSD at h
  dsimp only at h
  split at h
  · cases h
  · cases h
    refine List.foldlRecOn _ _ hr fun resp hr s _ => ?_
    unfold appendService
    dsimp only
    split_ifs
    · exact filled_sdAppend (filled_sdAppend hr)
    · exact filled_sdAppend hr
  · cases h
    exact List.foldlRecOn _ _ hr fun resp hr t _ => filled_sdAppend hr

theorem filled_answerLocal (h : (answerLocal newRR snap view req name label q).msg = some m) :
    Filled m := by
  unfold answerLocal at h
  dsimp only at h
  split at h
  next msg hmsg =>
    cases h
    split_ifs at hmsg
    exact filled_answerDNSSD filled_reply hmsg
  · unfold answerLocalHost at h
    dsimp only at h
    split at h
    · cases h
      exact ⟨filled_reply.answer, filled_reply.ns, filled_reply.extra⟩
    next host _ =>
      by_cases hnil : (decide ((localHostAddrs snap view host false).1 = []) &&
          decide ((localHostAddrs snap view host false).2.1 = [])) = true
      · rw [if_pos hnil] at h
        cases h
        exact ⟨filled_reply.answer, filled_reply.ns, filled_reply.extra⟩
      · rw [if_neg hnil] at h
        cases h
        exact filled_fillLocalAddrs filled_reply

theorem filled_specialReply : Filled (specialReply newRR snap req name q) := by
  unfold specialReply
  split_ifs
  · unfold resolverArpa
    dsimp only
    split
    · exact filled_reply
    next d _ =>
      by_cases hno : (decide (name ≠ "_dns.resolver.arpa.".toList) ||
          decide (q ≠ typeSVCB) && decide (q ≠ typeANY)) = true
      · rw [if_pos hno]
        exact filled_reply
      · rw [if_neg hno]
        exact filled_replyWith (by simp [ddrSVCB])
  · split
    · refine filled_replyWith fun h => ?_
      rcases List.mem_append.mp h with h | h
      · split_ifs at h <;> simp at h
      · split_ifs at h <;> simp at h
    · exact filled_appendMatching filled_reply

end Planes

def Redirected (snap : Snapshot) (name : Str) : Prop :=
  longestZoneSuffix name snap.zones ≠ [] ∧
    ReachesZone snap name (longestZoneSuffix name snap.zones) ∧
    isVHostCandidate snap (longestZoneSuffix name snap.zones)
      (relativeOwner name (longestZoneSuffix name snap.zones)) = true

theorem filled_resolve_iff (hq : req.question = [qu]) :
    (∀ m, (resolve newRR snap view req).msg = some m → Filled m) ↔
      (Redirected snap (queryName qu) → ∀ p ∈ proxyAddrs snap qu.qtype,
        (addrRR newRR (queryName qu) p.1 p.2.string vhostTTL).isSome) := by
  by_cases hs : Special snap (queryName qu)
  · rw [resolve_of_special hq hs]
    refine iff_of_true ?_ fun hr => absurd hs hr.2.1.special
    rintro m hm
    cases hm
    exact filled_specialReply
  by_cases hreach : longestZoneSuffix (queryName qu) snap.zones ≠ [] ∧
      ReachesZone snap (queryName qu) (longestZoneSuffix (queryName qu) snap.zones)
  · rw [forall_msg_of_reachesZone hq hreach.1 hreach.2, Redirected, ← and_assoc,
      and_iff_right hreach]
    unfold answerZoneOrVHost
    dsimp only
    by_cases hv : isVHostCandidate snap (longestZoneSuffix (queryName qu) snap.zones)
      (relativeOwner (queryName qu) (longestZoneSuffix (queryName qu) snap.zones)) = true
    · rw [if_pos hv, filled_vhostReply_iff]
      exact ⟨fun h _ => h, fun h => h hv⟩
    · rw [if_neg hv]
      refine iff_of_true ?_ fun h => absurd h hv
      split
      · exact filled_answerZone
      · exact filled_answerAuthoritative
  · refine iff_of_true ?_ fun hr => absurd ⟨hr.1, hr.2.1⟩ hreach
    intro m hm
    rw [resolve_of_not_special hq hs] at hm
    by_cases harpa : isArpa (queryName qu) = true
    · rw [if_pos harpa] at hm
      exact filled_answerReverse hm
    rw [if_neg harpa] at hm
    rcases hl : localLabel snap (queryName qu) with _ | label
    · rw [hl] at hm
      dsimp only at hm
      split_ifs at hm with hstub hapex hany
      · exact absurd ⟨hapex, hs, by simpa using harpa,
          localLabel_eq_none_iff_not_underLocal.mp hl, not_not.mp hstub, rfl⟩ hreach
      · cases hm
        exact ⟨by simp [minimalANY], List.not_mem_nil, List.not_mem_nil⟩
    · rw [hl] at hm
      exact filled_answerLocal hm

section Configured

/-- `NewRR` fails on an address record of the name exactly when the address is not of the type's
family, or has a zone. -/
structure ReadsAddresses (newRR : NewRR) (name : Str) (ttl : UInt32) : Prop where
  a : ∀ addr : Addr, addr.isValid → ((addrRR newRR name typeA addr.string ttl).isSome ↔ addr.is4)
  aaaa : ∀ addr : Addr, addr.isValid →
    ((addrRR newRR name typeAAAA addr.string ttl).isSome ↔ addr.is6 ∧ addr.zone = [])

/-- The addresses the configuration redirects a query of the type to are of the type's family. -/
def ProxyFits (cfg : Config) (q : RRType) : Prop :=
  (q = typeA ∨ q = typeANY → ∀ a ∈ parseAddr cfg.vhost.proxyV4, a.is4) ∧
    (q = typeAAAA ∨ q = typeANY → ∀ a ∈ parseAddr cfg.vhost.proxyV6, a.is6 ∧ a.zone = [])

theorem proxyFits_iff {cfg : Config} (hsnap : Obtained newRR cfg snap)
    (hread : ReadsAddresses newRR name vhostTTL) :
    (∀ p ∈ proxyAddrs snap q, (addrRR newRR name p.1 p.2.string vhostTTL).isSome) ↔
      ProxyFits cfg q := by
  obtain ⟨h4, h6⟩ := hsnap.vhost
  have hvalid : ∀ (s : Str) (a : Addr), (parseAddr s).getD .invalid = a → a.isValid = true →
      parseAddr s = some a := by
    intro s a ha hv
    rcases hp : parseAddr s with _ | b
    · rw [hp] at ha
      subst ha
      cases hv
    · rw [hp] at ha
      rw [← ha]
      rfl
  have hget : ∀ (s : Str) (a : Addr), parseAddr s = some a → (parseAddr s).getD .invalid = a := by
    intro s a ha
    rw [ha]
    rfl
  unfold ProxyFits
  simp only [proxyAddrs, List.mem_filter, List.mem_cons, List.not_mem_nil, or_false]
  constructor
  · intro h
    constructor
    · intro hq a ha
      have hv := isValid_of_parseAddr ha
      refine (hread.a a hv).mp ?_
      have hp := h (typeA, snap.vhostV4) ⟨Or.inl rfl, ?_⟩
      · rwa [h4, hget _ _ ha] at hp
      · rw [h4, hget _ _ ha]
        simpa [hv] using hq.symm
    · intro hq a ha
      have hv := isValid_of_parseAddr ha
      refine (hread.aaaa a hv).mp ?_
      have hp := h (typeAAAA, snap.vhostV6) ⟨Or.inr rfl, ?_⟩
      · rwa [h6, hget _ _ ha] at hp
      · rw [h6, hget _ _ ha]
        simpa [hv] using hq.symm
  · rintro ⟨hfit4, hfit6⟩ p ⟨rfl | rfl, hp⟩
    · simp only [Bool.and_eq_true, Bool.or_eq_true, decide_eq_true_eq] at hp
      exact (hread.a _ hp.2).mpr (hfit4 hp.1.symm _ (hvalid _ _ h4.symm hp.2))
    · simp only [Bool.and_eq_true, Bool.or_eq_true, decide_eq_true_eq] at hp
      exact (hread.aaaa _ hp.2).mpr (hfit6 hp.1.symm _ (hvalid _ _ h6.symm hp.2))

/-- For every configuration, no section of a reply has a nil record iff no query that is redirected
meets a proxy address of the wrong family. -/
theorem resolve_filled_iff (newRR : NewRR) (cfg : Config) (snap : Snapshot)
    (hsnap : Obtained newRR cfg snap) (c : MDNS.Cache) (now : Time) (ord : RangeOrder Str Unit)
    (req : Msg) (hread : ∀ q ∈ req.question, ReadsAddresses newRR (queryName q) vhostTTL) :
    (∀ m, (resolve newRR snap (c.view now ord) req).msg = some m → Filled m) ↔
      ∀ q, req.question = [q] → Redirected snap (queryName q) → ProxyFits cfg q.qtype := by
  by_cases hone : ∃ q, req.question = [q]
  · obtain ⟨q, hq⟩ := hone
    have hfits := @proxyFits_iff newRR snap (queryName q) q.qtype cfg hsnap (hread q (by simp [hq]))
    rw [filled_resolve_iff hq, hfits]
    constructor
    · rintro h q' hq'
      obtain rfl := List.singleton_inj.mp (hq.symm.trans hq')
      exact h
    · exact fun h => h q hq
  · refine iff_of_true ?_ fun q hq => absurd ⟨q, hq⟩ hone
    intro m hm
    unfold resolve at hm
    split at hm
    next q hq => exact absurd ⟨q, hq⟩ hone
    · cases hm
      exact ⟨List.not_mem_nil, List.not_mem_nil, List.not_mem_nil⟩

def emptyAccount : ZoneLister where
  zones := .ok (Map.ofList [("id".toList, "example.com".toList)])
  allRecords _ := .ok []

/-- A site that mirrors the zone and redirects its apex to an IPv4 proxy, given by its text. -/
def proxySite (proxyV4 : Str) : Config :=
  { zones := { localZones := ["example.com".toList] }, vhost := { proxyV4 } }

def proxySnapshot (newRR : NewRR) (proxyV4 : Str) : Snapshot :=
  { baseSnapshot (proxySite proxyV4) [] default with
    zones := Map.ofList [("example.com.".toList, some (buildZone newRR "example.com".toList
      "id".toList (proxySite proxyV4).cloudflare.resolvedTunnelSuffixes [] noTunnels))]
    cfHealthy := true }

theorem obtained_proxySnapshot (newRR : NewRR) (proxyV4 : Str) :
    Obtained newRR (proxySite proxyV4) (proxySnapshot newRR proxyV4) := by
  refine ⟨[], default, Or.inr ⟨some emptyAccount, noTunnels, default, ?_⟩⟩
  rfl

/-- An IPv6 text for the IPv4 proxy gives a nil record in the answer. -/
theorem wrong_family_nil_record :
    Obtained readLine (proxySite "2001:db8::1".toList)
        (proxySnapshot readLine "2001:db8::1".toList) ∧
      (resolve readLine (proxySnapshot readLine "2001:db8::1".toList)
        (({} : MDNS.Cache).view 0 default) (ask "example.com.".toList typeA)).msg.map (·.answer) =
        some [none] :=
  ⟨obtained_proxySnapshot _ _, by decide⟩

/-- The reader of plain lines that takes no address with a zone. -/
def readPlain : NewRR := fun line =>
  if '%' ∈ line then .error "dns: bad address".toList else readLine line

theorem isSome_addrRR_iff {t : RRType} {content : Str} {ttl : UInt32} :
    (addrRR newRR name t content ttl).isSome ↔ ∃ rec, newRR (Model.RR.line
      { name := fqdn name, type := t, cls := classINET, ttl, content }) = .ok (some rec) := by
  unfold addrRR Model.RR.toMiekg
  rcases newRR (Model.RR.line { name := fqdn name, type := t, cls := classINET, ttl, content })
    with e | _ | rec <;> simp [Except.toOption]

theorem addrRR_readPlain_iff {t : RRType} (ht : t ∈ [typeA, typeAAAA]) {a : Addr} (ha : a.isValid) :
    (addrRR readPlain "example.com.".toList t a.string vhostTTL).isSome ↔
      a.zone = [] ∧ (readRData t a.string).isSome := by
  have hread : stringToType (typeToString t) = some t ∧ ' ' ∉ typeToString t ∧
      '%' ∉ typeToString t := by
    simp only [List.mem_cons, List.not_mem_nil, or_false] at ht
    rcases ht with rfl | rfl <;> decide
  have hline : Model.RR.line
      { name := fqdn "example.com.".toList, type := t, cls := classINET, ttl := vhostTTL,
        content := a.string } =
      join ["example.com.".toList, "60".toList, "IN".toList, typeToString t, a.string] ' ' := by
    have hname : Model.ensureDot (fqdn "example.com.".toList) = "example.com.".toList := by decide
    have httl : Model.decimal vhostTTL.toNat = "60".toList := by decide
    have hclass : classToString (Model.classOrINET classINET) = "IN".toList := by decide
    have hdata : t ≠ typeMX ∧ t ≠ typeSRV := by
      simp only [List.mem_cons, List.not_mem_nil, or_false] at ht
      rcases ht with rfl | rfl <;> decide
    simp only [Model.RR.line, Model.RR.rdata, hname, httl, hclass, hdata.1, hdata.2, if_false]
  have hpct : '%' ∈ join ["example.com.".toList, "60".toList, "IN".toList, typeToString t,
      a.string] ' ' ↔ a.zone ≠ [] := by
    rw [← Addr.percent_mem_string_iff ha]
    simp [join, List.intercalate_cons_cons, hread.2.2]
  rw [isSome_addrRR_iff, hline, readPlain]
  by_cases hz : a.zone = []
  · have hspace : ' ' ∉ a.string := fun h =>
      absurd (Addr.mem_string ha hz h).1 (by decide)
    rw [if_neg fun h => hpct.mp h hz, and_iff_right hz]
    refine readLine_join_iff (n := 60) (fun f hf => ?_) (by decide) hread.1
    simp only [List.mem_cons, List.not_mem_nil, or_false] at hf
    rcases hf with rfl | rfl | rfl | rfl
    · decide
    · decide
    · exact hread.2.1
    · exact hspace
  · rw [if_pos (hpct.mpr hz)]
    exact iff_of_false (by simp) fun h => hz h.1

theorem readsAddresses_readPlain : ReadsAddresses readPlain "example.com.".toList vhostTTL := by
  constructor
  · intro a ha
    rw [addrRR_readPlain_iff (by simp) ha, readRData, if_pos rfl, parseAddr_string ha]
    cases a <;> simp [Addr.is4, Addr.zone]
  · intro a ha
    rw [addrRR_readPlain_iff (by simp) ha, readRData, if_neg (by decide), if_pos rfl,
      parseAddr_string ha]
    cases a <;> simp [Addr.is6, Addr.zone]

/-- A redirect to an IPv4 proxy answers with its address. -/
theorem right_family_filled :
    Redirected (proxySnapshot readPlain "192.0.2.10".toList) "example.com.".toList ∧
      ∀ m, (resolve readPlain (proxySnapshot readPlain "192.0.2.10".toList)
        (({} : MDNS.Cache).view 0 default) (ask "example.com.".toList typeA)).msg = some m →
          Filled m := by
  have hname :
      queryName ⟨"example.com.".toList, typeA, classINET⟩ = "example.com.".toList := by decide
  constructor
  · exact ⟨by decide, ⟨by decide, by decide, by decide, by decide, rfl⟩, by decide⟩
  · refine (resolve_filled_iff readPlain (proxySite "192.0.2.10".toList) _
      (obtained_proxySnapshot _ _) {} 0 default _ ?_).mpr ?_
    · intro q hq
      obtain rfl := List.mem_singleton.mp hq
      rw [hname]
      exact readsAddresses_readPlain
    · rintro q hq -
      obtain rfl := List.singleton_inj.mp hq
      refine ⟨fun _ a ha => ?_, fun h => absurd h (by decide)⟩
      obtain rfl := Option.some.inj (ha.symm.trans
        (show parseAddr "192.0.2.10".toList = some (.v4 0xC000020A) by decide))
      rfl

end Configured

end SplitDNS.Resolver
