import SplitDNS.Resolver.Restart
import SplitDNS.Resolver.Taint

/-! # Overridden addresses

A name whose address is overridden, by the proxy or by a host of the local
network, is given the addresses of the override alone. What else it inherits
from the zone is of other types, also where the record sets of a map are served
all at once.
-/

namespace SplitDNS.Resolver

open Go Go.Netip Go.Strings Dns Model Mirror

variable {newRR : NewRR} {IsName : Str → Prop} {snap : Snapshot} {view : MDNSView} {req : Msg}
  {z : Zone} {name owner : Str} {q t : RRType} {m : RRsets} {r : Model.RR} {rec : Record} {x : Addr}

/-- The records of a map are of the type they are filed under, which is a mirrored one. -/
def Typed (m : RRsets) : Prop := ∀ t, ∀ r ∈ rrsetOf (some m) t, r.type = t ∧ t ∈ mirroredTypes

theorem typed_wildcards {apex zoneID : Str} {tunnelSuffixes : List Str}
    {recs : List CFAPI.Record} {tr : TunnelResolver} :
    Typed (buildZone newRR apex zoneID tunnelSuffixes recs tr).wildcards := by
  intro t r hr
  obtain ⟨htype, hmem, -⟩ := mem_buildZone_wildcards hr
  exact ⟨htype, hmem⟩

theorem typed_inherited {apex zoneID : Str} {tunnelSuffixes : List Str}
    {recs : List CFAPI.Record} {tr : TunnelResolver} :
    Typed ((vhostInherited (some (buildZone newRR apex zoneID tunnelSuffixes recs tr)) owner).getD
      ∅) := by
  intro t r hr
  rw [rrsetOf_getD] at hr
  rw [vhostInherited, Option.bind_some] at hr
  split_ifs at hr
  · obtain ⟨htype, hmem, -⟩ := mem_buildZone_rrset hr
    exact ⟨htype, hmem⟩
  · exact typed_wildcards t r hr

theorem typeToString_ne_nil_of_mirrored (h : t ∈ mirroredTypes) : typeToString t ≠ [] := by
  have hall : mirroredTypes.all (fun t => typeToString t ≠ []) = true := by decide
  simpa using List.all_eq_true.mp hall t h

theorem mem_renderSets {sets : List RRset} {rr : Dns.RR} :
    rr ∈ renderSets newRR sets name ↔ ∃ p ∈ sets, rr ∈ render newRR p.2 name p.1 :=
  List.mem_flatMap

theorem Typed.rrtype_of_mem (hm : Typed m) (hread : ReadsNames newRR IsName)
    (hname : IsName (fqdn name)) (h : some rec ∈ renderSets newRR (unstripped m q) name) :
    overrideStripped rec.hdr.rrtype = false := by
  obtain ⟨p, hp, hrec⟩ := mem_renderSets.mp h
  have hset : p.2 = rrsetOf (some m) p.1 ∧ overrideStripped p.1 = false := by
    unfold unstripped at hp
    split_ifs at hp with hany hs
    · obtain ⟨hmem, hkeep⟩ := List.mem_filter.mp hp
      have hl : m.lookup p.1 = some p.2 := Map.lookup_eq_some_iff_mem_entries.mpr hmem
      exact ⟨by simp [rrsetOf, hl], by simpa using hkeep⟩
    · cases hp
    · rw [List.mem_singleton.mp hp]
      exact ⟨rfl, by simpa using hs⟩
  obtain ⟨r, hr, -, -, hrr⟩ := mem_render_iff.mp hrec
  rw [hset.1] at hr
  obtain ⟨htype, hmem⟩ := hm p.1 r hr
  have hne := typeToString_ne_nil_of_mirrored (htype.symm ▸ hmem)
  rw [(hread.header hname hne (line_of_toRR hrr)).2, htype]
  exact hset.2

/-- The record is of a type that is not overridden, or an address of the override. -/
structure Overrides (own : RRType → Addr → Prop) (rec : Record) : Prop where
  a : rec.hdr.rrtype = typeA → ∃ x, own typeA x ∧ rec.data = .a x
  aaaa : rec.hdr.rrtype = typeAAAA → ∃ x, own typeAAAA x ∧ rec.data = .aaaa x
  others : rec.hdr.rrtype ∉ [typeCNAME, typeHTTPS, typeSVCB]

variable {own : RRType → Addr → Prop}

theorem overrides_of_unstripped (h : overrideStripped rec.hdr.rrtype = false) :
    Overrides own rec := by
  simp only [overrideStripped, decide_eq_false_iff_not, List.mem_cons, not_or] at h
  obtain ⟨hA, hAAAA, hothers⟩ := h
  exact ⟨fun h => absurd h hA, fun h => absurd h hAAAA, by simpa using hothers⟩

theorem overrides_of_toRR (hread : ReadsNames newRR IsName) (haddr : ReadsAddrs newRR IsName)
    (hname : IsName (fqdn name)) (htype : r.type = typeA ∨ r.type = typeAAAA)
    (hx : parseAddr r.content = some x) (hown : own r.type x)
    (h : toRR newRR r name = some rec) : Overrides own rec := by
  have hline := line_of_toRR h
  rcases htype with ht | ht
  all_goals
    have hrdata : r.rdata = r.content := by
      rw [Model.RR.rdata, ht]
      rfl
    rw [ht, hrdata] at hline
    rw [ht] at hown
    have hrr := (hread.header hname (by decide) hline).2
  · refine ⟨fun _ => ⟨x, hown, haddr.a hname hx hline⟩, fun h6 => ?_, by rw [hrr]; decide⟩
    exact absurd (hrr.symm.trans h6) (by decide)
  · refine ⟨fun h4 => ?_, fun _ => ⟨x, hown, haddr.aaaa hname hx hline⟩, by rw [hrr]; decide⟩
    exact absurd (hrr.symm.trans h4) (by decide)

def IsProxy (snap : Snapshot) (t : RRType) (x : Addr) : Prop :=
  (t, x) ∈ [(typeA, snap.vhostV4), (typeAAAA, snap.vhostV6)]

def IsHostAddr (view : MDNSView) (host : Str) (t : RRType) (x : Addr) : Prop :=
  ∃ r ∈ forwardOf view host, r.type = t ∧ parseAddr r.content = some x ∧ isServable x = true

theorem servable_iff {localScopeOnly : Bool} : servable t localScopeOnly r = true ↔
    r.type = t ∧ ∃ x, parseAddr r.content = some x ∧ isServable x = true ∧
      (localScopeOnly = true → isLocalScope x = true) := by
  rw [servable]
  rcases parseAddr r.content with _ | x
  · simp
  · cases localScopeOnly <;> simp

theorem mem_localScopeAddrs {mrecs : List Model.RR} (h : r ∈ localScopeAddrs mrecs) :
    r ∈ mrecs ∧ (r.type = typeA ∨ r.type = typeAAAA) ∧
      ∃ x, parseAddr r.content = some x ∧ isServable x = true := by
  have hfamily : ∀ t, (r ∈ if mrecs.filter (servable t true) ≠ [] then
      mrecs.filter (servable t true) else mrecs.filter (servable t false)) →
      r ∈ mrecs ∧ r.type = t ∧ ∃ x, parseAddr r.content = some x ∧ isServable x = true := by
    intro t h
    split_ifs at h
    all_goals
      obtain ⟨hmem, hs⟩ := List.mem_filter.mp h
      obtain ⟨htype, x, hx, hs⟩ := servable_iff.mp hs
      exact ⟨hmem, htype, x, hx, hs.1⟩
  rw [localScopeAddrs] at h
  rcases List.mem_append.mp h with h | h
  · obtain ⟨hmem, htype, hx⟩ := hfamily typeA h
    exact ⟨hmem, Or.inl htype, hx⟩
  · obtain ⟨hmem, htype, hx⟩ := hfamily typeAAAA h
    exact ⟨hmem, Or.inr htype, hx⟩

theorem addrRR_eq_toRR (t : RRType) (s : Str) (ttl : UInt32) : addrRR newRR name t s ttl =
    toRR newRR { type := t, cls := classINET, ttl, content := s } name :=
  rfl

theorem overrides_vhost (hread : ReadsNames newRR IsName) (haddr : ReadsAddrs newRR IsName)
    (hname : IsName (fqdn name)) {zone : Option Zone}
    (hm : Typed ((vhostInherited zone owner).getD ∅))
    (h : some rec ∈ (vhostReply newRR snap req name owner q zone).answer) :
    Overrides (IsProxy snap) rec := by
  rw [answer_vhostReply, vhostAnswer] at h
  rcases List.mem_append.mp h with h | h
  · obtain ⟨p, hp, hrec⟩ := List.mem_map.mp h
    obtain ⟨hmem, hvalid⟩ := List.mem_filter.mp hp
    simp only [Bool.and_eq_true] at hvalid
    have hproxy : IsProxy snap p.1 p.2 := hmem
    have htype : p.1 = typeA ∨ p.1 = typeAAAA := by
      rcases List.mem_pair.mp hmem with rfl | rfl
      · exact Or.inl rfl
      · exact Or.inr rfl
    rw [addrRR_eq_toRR] at hrec
    exact overrides_of_toRR hread haddr hname htype (parseAddr_string hvalid.2) hproxy hrec
  · exact overrides_of_unstripped (hm.rrtype_of_mem hread hname h)

theorem overrides_mdnsZone (hread : ReadsNames newRR IsName) (haddr : ReadsAddrs newRR IsName)
    (hname : IsName (fqdn name)) (hm : Typed z.wildcards)
    (h : some rec ∈ (mdnsZoneReply newRR z req name q
      (localScopeAddrs (forwardOf view owner))).answer) :
    Overrides (IsHostAddr view owner) rec := by
  rw [answer_mdnsZoneReply] at h
  rcases List.mem_append.mp h with h | h
  · split_ifs at h
    · obtain ⟨r, hr, -, -, hrec⟩ := mem_render_iff.mp h
      obtain ⟨hmem, htype, x, hx, hs⟩ := mem_localScopeAddrs hr
      exact overrides_of_toRR hread haddr hname htype hx ⟨r, hmem, rfl, hx, hs⟩ hrec
    · cases h
  · exact overrides_of_unstripped (hm.rrtype_of_mem (q := q) hread hname h)

/-- In the answer for a name that is redirected to the proxy, or served with the addresses of a host
of the local network, no record of the zone gives another address, an alias or a service binding. -/
theorem override_complete (newRR : NewRR) (IsName : Str → Prop) (hread : ReadsNames newRR IsName)
    (haddr : ReadsAddrs newRR IsName) (snap : Snapshot)
    (hbuilt : ∀ apex z, snap.zones.lookup apex = some (some z) →
      ∃ zoneName zoneID tunnelSuffixes recs tr,
        z = buildZone newRR zoneName zoneID tunnelSuffixes recs tr)
    (view : MDNSView) (req : Msg) (name apex owner : Str) (hname : IsName (fqdn name))
    (q : RRType) (rec : Record) :
    (some rec ∈ (vhostReply newRR snap req name owner q (snap.zones.lookup apex).join).answer →
      Overrides (IsProxy snap) rec) ∧
    ∀ z, snap.zones.lookup apex = some (some z) →
      some rec ∈ (mdnsZoneReply newRR z req name q
        (localScopeAddrs (forwardOf view owner))).answer →
      Overrides (IsHostAddr view owner) rec := by
  constructor
  · rcases hz : snap.zones.lookup apex with _ | _ | z
    · exact overrides_vhost hread haddr hname (by simp [vhostInherited, Typed, rrsetOf])
    · exact overrides_vhost hread haddr hname (by simp [vhostInherited, Typed, rrsetOf])
    · obtain ⟨zoneName, zoneID, tunnelSuffixes, recs, tr, rfl⟩ := hbuilt apex z hz
      exact overrides_vhost hread haddr hname typed_inherited
  · intro z hz
    obtain ⟨zoneName, zoneID, tunnelSuffixes, recs, tr, rfl⟩ := hbuilt apex z hz
    exact overrides_mdnsZone hread haddr hname typed_wildcards

/-- A label with a text of its own, a wildcard with an address and a text, and a name below a label
without records. -/
def redirectRecords : List CFAPI.Record :=
  [{ type := "TXT".toList, name := "www.example.com".toList, content := "own".toList },
   { type := "A".toList, name := "*.example.com".toList, content := "192.0.2.9".toList },
   { type := "TXT".toList, name := "*.example.com".toList, content := "shared".toList },
   { type := "TXT".toList, name := "a.b.example.com".toList, content := "deep".toList }]

def redirectZone : Zone :=
  buildZone readLine "example.com".toList [] [] redirectRecords noTunnels

/-- A site that mirrors the zone and has a reverse proxy. -/
def redirectSite : Snapshot :=
  { zones := Map.ofList [("example.com.".toList, some redirectZone)], vhostV4 := .v4 0x0a000002 }

theorem redirectSite_built (apex : Str) (z : Zone)
    (h : redirectSite.zones.lookup apex = some (some z)) :
    ∃ zoneName zoneID tunnelSuffixes recs tr,
      z = buildZone readLine zoneName zoneID tunnelSuffixes recs tr := by
  have hmem : apex ∈ redirectSite.zones := Map.mem_of_lookup h
  obtain rfl : apex = "example.com.".toList := List.mem_singleton.mp hmem
  have hz : redirectZone = z := Option.some.inj (Option.some.inj h)
  exact ⟨_, _, _, _, _, hz.symm⟩

/-- Asked for all types, the redirected label has an address, and it is the proxy's. -/
theorem override_complete_www :
    ∃ rec, some rec ∈ (vhostReply readLine redirectSite {} "www.example.com.".toList "www".toList
        typeANY (some redirectZone)).answer ∧
      rec.hdr.rrtype = typeA ∧ Overrides (IsProxy redirectSite) rec := by
  have hans : some ⟨⟨"www.example.com.".toList, typeA, classINET, vhostTTL⟩, .a (.v4 0x0a000002)⟩ ∈
      (vhostReply readLine redirectSite {} "www.example.com.".toList "www".toList typeANY
        (some redirectZone)).answer := by decide
  exact ⟨_, hans, rfl, (override_complete readLine PlainName readsNames_readLine
    readsAddrs_readLine redirectSite redirectSite_built {} {} "www.example.com.".toList
    "example.com.".toList "www".toList (by decide) typeANY _).1 hans⟩

section Inheriting

def Inheritable (q : RRType) : Prop := overrideStripped q = false ∧ q ≠ typeANY

instance : DecidablePred Inheritable := fun _ => inferInstanceAs (Decidable (_ ∧ _))

theorem Inheritable.ne (hq : Inheritable q) :
    q ≠ typeA ∧ q ≠ typeAAAA ∧ q ≠ typeCNAME ∧ q ≠ typeANY := by
  obtain ⟨hs, hany⟩ := hq
  simp only [overrideStripped, decide_eq_false_iff_not, List.mem_cons, not_or] at hs
  exact ⟨hs.1, hs.2.1, hs.2.2.1, hany⟩

theorem renderSets_unstripped (hq : Inheritable q) :
    renderSets newRR (unstripped m q) name = render newRR (rrsetOf (some m) q) name q := by
  rw [unstripped, if_neg hq.2, if_neg (by simp [hq.1]), renderSets_singleton]

theorem render_nil : render newRR [] name q = [] := rfl

theorem renderSets_synthesized (hq : Inheritable q) :
    renderSets newRR (synthesized z q) name =
      render newRR (rrsetOf (some z.wildcards) q) name q := by
  obtain ⟨hA, hAAAA, -, hany⟩ := hq.ne
  rw [synthesized, if_neg hany, if_neg (by simp [hA, hAAAA]), renderSets_singleton]

/-- The zone's own answer for a type that is inherited: an owner that exists has its own records,
any other the wildcard's. -/
theorem answered_inheritable (hq : Inheritable q)
    (hcn : rrsetOf (z.records.lookup owner) typeCNAME = []) :
    answered newRR z name owner q =
      render newRR (if Missing z owner then rrsetOf (some z.wildcards) q
        else rrsetOf (z.records.lookup owner) q) name q := by
  obtain ⟨hA, hAAAA, -, -⟩ := hq.ne
  have hstored : storedSet z owner q = rrsetOf (z.records.lookup owner) q := by
    unfold storedSet
    split_ifs with hset haddr
    · rfl
    · exact absurd haddr (by simp [hA, hAAAA])
    · exact (not_not.mp hset).symm
  have hchase : ¬ Chases z owner q := fun h => h.aliased hcn
  rw [answered, hstored, if_neg hchase, renderSets_synthesized hq]
  by_cases hmiss : Missing z owner
  · rw [if_neg (not_not_intro (hmiss.rrsetOf_eq_nil q).1), if_pos hmiss, if_pos hmiss]
  · rw [if_neg hmiss, if_neg hmiss]
    split_ifs with hset
    · rfl
    · rw [not_not.mp hset, render_nil]

theorem answer_vhostReply_inheritable (hq : Inheritable q) {zone : Option Zone} :
    (vhostReply newRR snap req name owner q zone).answer =
      render newRR (rrsetOf (vhostInherited zone owner) q) name q := by
  obtain ⟨hA, hAAAA, -, hany⟩ := hq.ne
  have hproxy : proxyAddrs snap q = [] := by simp [proxyAddrs, hA, hAAAA, hany]
  rw [answer_vhostReply, vhostAnswer, hproxy, renderSets_unstripped hq, rrsetOf_getD]
  rfl

theorem answer_mdnsZoneReply_inheritable (hq : Inheritable q) (mrecs : List Model.RR) :
    (mdnsZoneReply newRR z req name q mrecs).answer =
      render newRR (rrsetOf (some z.wildcards) q) name q := by
  obtain ⟨hA, hAAAA, -, hany⟩ := hq.ne
  rw [answer_mdnsZoneReply, if_neg (by simp [hA, hAAAA, hany])]
  exact renderSets_unstripped hq

end Inheriting

/-- For the types that an override leaves to the zone, the answer has the records of the zone's own
answer, except that a redirected label and a host of the local network are given the wildcard's
also where the label exists in the zone, and a redirected apex never is. -/
theorem override_inherits_iff (newRR : NewRR) (snap : Snapshot)
    (hbuilt : ∀ apex z, snap.zones.lookup apex = some (some z) →
      ∃ zoneName zoneID tunnelSuffixes recs tr,
        z = buildZone newRR zoneName zoneID tunnelSuffixes recs tr)
    (view : MDNSView) (req : Msg) (name apex owner : Str) (q : RRType) (hq : Inheritable q)
    (z : Zone) (hz : snap.zones.lookup apex = some (some z))
    (hcn : rrsetOf (z.records.lookup owner) typeCNAME = []) :
    ((vhostReply newRR snap req name owner q (some z)).answer.Perm
        (answerAuthoritative newRR req (some z) name owner q).answer ↔
      if owner = [] then
        owner ∈ z.records ∨ owner ∈ z.tunnelAddr ∨
          render newRR (rrsetOf (some z.wildcards) q) name q = []
      else Missing z owner ∨ (render newRR (rrsetOf (some z.wildcards) q) name q).Perm
        (render newRR (rrsetOf (z.records.lookup owner) q) name q)) ∧
    (owner ∉ z.records → owner ∉ z.tunnelAddr →
      ((mdnsZoneReply newRR z req name q (localScopeAddrs (forwardOf view owner))).answer.Perm
          (answerAuthoritative newRR req (some z) name owner q).answer ↔
        owner ∈ z.ent → render newRR (rrsetOf (some z.wildcards) q) name q = [])) := by
  have hauth : (answerAuthoritative newRR req (some z) name owner q).answer =
      answered newRR z name owner q := answer_answerInZone hq.ne.2.2.1 hq.2
  rw [hauth, answered_inheritable hq hcn, answer_vhostReply_inheritable hq,
    answer_mdnsZoneReply_inheritable hq]
  refine ⟨?_, fun hr ht => ?_⟩
  · rw [vhostInherited, Option.bind_some]
    split_ifs with hapex hmiss hmiss
    · -- the apex has no records to inherit, and the wildcard would answer for it
      subst hapex
      rw [(hmiss.rrsetOf_eq_nil q).1, render_nil, List.nil_perm]
      simp [hmiss.1, hmiss.2.1]
    · subst hapex
      obtain ⟨zoneName, zoneID, tunnelSuffixes, recs, tr, rfl⟩ := hbuilt apex z hz
      refine iff_of_true (List.Perm.refl _) ?_
      have hent := fun h =>
        ((@mem_buildZone_ent newRR zoneName zoneID tunnelSuffixes recs tr []).mp h).1 rfl
      by_contra h
      rw [not_or, not_or] at h
      exact hmiss ⟨h.1, h.2.1, hent⟩
    · exact iff_of_true (List.Perm.refl _) (Or.inl hmiss)
    · exact (or_iff_right hmiss).symm
  · by_cases hent : owner ∈ z.ent
    · rw [if_neg fun h : Missing z owner => h.2.2 hent, AList.lookup_eq_none.mpr hr]
      change (_ : List Dns.RR).Perm [] ↔ _
      rw [List.perm_nil]
      simp [hent]
    · rw [if_pos ⟨hr, ht, hent⟩]
      exact iff_of_true (List.Perm.refl _) fun h => absurd h hent

/-- A redirected label is given the text of the wildcard in place of its own, and a host of the
local network is given it although the zone has no text at its label. -/
theorem override_shadows_own :
    (isVHostCandidate redirectSite "example.com.".toList "www".toList = true ∧
      rrsetOf (redirectZone.records.lookup "www".toList) typeCNAME = [] ∧
      rrsetOf (some redirectZone.wildcards) typeCNAME = [] ∧
      ¬ (vhostReply readLine redirectSite {} "www.example.com.".toList "www".toList typeTXT
          (some redirectZone)).answer.Perm
        (answerAuthoritative readLine {} (some redirectZone) "www.example.com.".toList
          "www".toList typeTXT).answer) ∧
    ("b".toList ∉ redirectZone.records ∧ "b".toList ∉ redirectZone.tunnelAddr ∧
      ¬ (mdnsZoneReply readLine redirectZone {} "b.example.com.".toList typeTXT
          [{ type := typeA, content := "10.0.0.7".toList }]).answer.Perm
        (answerAuthoritative readLine {} (some redirectZone) "b.example.com.".toList
          "b".toList typeTXT).answer) := by
  decide +kernel

/-- A redirected label that is not in the zone has the texts of the zone's own answer. -/
theorem override_inherits_mail :
    (vhostReply readLine redirectSite {} "mail.example.com.".toList "mail".toList typeTXT
        (some redirectZone)).answer.Perm
      (answerAuthoritative readLine {} (some redirectZone) "mail.example.com.".toList
        "mail".toList typeTXT).answer := by
  have hiff := (override_inherits_iff readLine redirectSite redirectSite_built {} {}
    "mail.example.com.".toList "example.com.".toList "mail".toList typeTXT (by decide) redirectZone
    rfl (by decide)).1
  rw [if_neg (by decide)] at hiff
  exact hiff.mpr (Or.inl (by decide))

end SplitDNS.Resolver
