import SplitDNS.Dns.Presentation
import SplitDNS.Resolver.Names
import SplitDNS.Resolver.Replies

/-! # Routing

Which names leave the resolver, and to where. The special names are settled
first; then reverse names, names under a local suffix, stub zones and mirrored
zones take what lies below them, in this order, and the rest is forwarded.
-/

namespace SplitDNS.Resolver

open Go Go.Netip Go.Strings Dns Model

/-- A name that is answered before any suffix is looked at: in the resolver's own space, the
name of the designated resolver, or a static name. -/
def Special (snap : Snapshot) (name : Str) : Prop :=
  AtOrBelow name "resolver.arpa.".toList ∨ (∃ d ∈ snap.ddr, d.adn ≠ [] ∧ name = d.adn) ∨
    name ∈ snap.static

instance {snap : Snapshot} {name : Str} : Decidable (Special snap name) :=
  inferInstanceAs (Decidable (_ ∨ (∃ d ∈ snap.ddr, _) ∨ _))

def Covered {V : Type} (m : Map Str V) (name : Str) : Prop :=
  ∃ apex ∈ m, apex ≠ [] ∧ AtOrBelow name apex

def UnderLocal (snap : Snapshot) (name : Str) : Prop :=
  '.' :: "local.".toList <:+ name ∨
    snap.localDomain ≠ [] ∧ '.' :: (snap.localDomain ++ ['.']) <:+ name

instance {snap : Snapshot} {name : Str} : Decidable (UnderLocal snap name) :=
  inferInstanceAs (Decidable (_ ∨ _ ∧ _))

section Suffixes

variable {snap : Snapshot} {name : Str} {V : Type} {m : Map Str V}

theorem longestSuffix_ne_nil_iff : longestSuffix name m.keys ≠ [] ↔ Covered m name := by
  constructor
  · intro h
    obtain ⟨hmem, hbelow⟩ := (longestSuffix_cases name m.keys).resolve_left h
    exact ⟨_, AList.mem_keys.mpr hmem, h, hbelow⟩
  · rintro ⟨apex, hmem, hne, hbelow⟩ hnil
    have hle := length_le_longestSuffix (AList.mem_keys.mp hmem) hbelow
    rw [hnil, List.length_nil, Nat.le_zero, List.length_eq_zero_iff] at hle
    exact hne hle

theorem longestReverseZone_eq_none_iff {rz : Map Str RevZone} :
    longestReverseZone name rz = none ↔ ¬ Covered rz name := by
  rw [← longestSuffix_ne_nil_iff, not_not]
  unfold longestReverseZone
  dsimp only
  split_ifs with h
  · exact iff_of_true rfl h
  · have hmem := ((longestSuffix_cases name rz.keys).resolve_left h).1
    refine iff_of_false (fun hnone => ?_) h
    exact AList.lookup_eq_none.mp hnone (AList.mem_keys.mpr hmem)

theorem localLabel_eq_none_iff_not_underLocal : localLabel snap name = none ↔
    ¬ UnderLocal snap name := by
  rw [localLabel_eq_none_iff_member, UnderLocal, not_or, not_and]

end Suffixes

section Precedence

variable {newRR : NewRR} {snap : Snapshot} {view : MDNSView} {req : Msg} {q : Question}

theorem atOrBelow_resolverArpa_iff {name : Str} :
    (decide (name = "resolver.arpa.".toList) || hasSuffix name ".resolver.arpa.".toList) = true ↔
      AtOrBelow name "resolver.arpa.".toList := by
  simp only [Bool.or_eq_true, decide_eq_true_eq, hasSuffix, AtOrBelow]
  rfl

theorem filter_adn_eq_some {name : Str} {d : DDRAdvert} :
    (snap.ddr.filter fun d => d.adn ≠ [] && name = d.adn) = some d ↔
      d ∈ snap.ddr ∧ d.adn ≠ [] ∧ name = d.adn := by
  rw [Option.filter_eq_some_iff]
  simp

def specialReply (newRR : NewRR) (snap : Snapshot) (req : Msg) (name : Str) (qtype : RRType) :
    Msg :=
  if name = "resolver.arpa.".toList || hasSuffix name ".resolver.arpa.".toList then
    resolverArpa snap req name qtype
  else
    match snap.ddr.filter fun d => d.adn ≠ [] && name = d.adn with
    | some d => ddrADNReply d req name qtype
    | none =>
      appendMatching newRR { reply req with authoritative := true }
        ((snap.static.lookup name).getD []) name qtype

theorem rcode_specialReply {name : Str} {qtype : RRType} :
    (specialReply newRR snap req name qtype).rcode = .success := by
  unfold specialReply
  split_ifs
  · exact rcode_resolverArpa
  · split <;> rfl

theorem resolve_of_special (hq : req.question = [q]) (hs : Special snap (queryName q)) :
    resolve newRR snap view req =
      { msg := specialReply newRR snap req (queryName q) q.qtype } := by
  rw [resolve, hq, specialReply]
  dsimp only
  split_ifs with hra
  · rfl
  rw [atOrBelow_resolverArpa_iff] at hra
  rcases hadn : snap.ddr.filter fun d => d.adn ≠ [] && queryName q = d.adn with _ | d
  · rcases hs with h | ⟨d, hd, hne, hname⟩ | h
    · exact absurd h hra
    · rw [filter_adn_eq_some.mpr ⟨hd, hne, hname⟩] at hadn
      cases hadn
    · obtain ⟨recs, hrecs⟩ := Option.isSome_iff_exists.mp (AList.lookup_isSome.mpr h)
      rw [hadn, hrecs]
      unfold resolveName
      rcases hst : answerStatic newRR snap req (queryName q) q.qtype with _ | out
      · rw [answerStatic, hrecs] at hst
        cases hst
      · rw [answerStatic, hrecs] at hst
        cases hst
        rfl
  · rw [hadn]

theorem resolve_of_not_special (hq : req.question = [q]) (hs : ¬ Special snap (queryName q)) :
    resolve newRR snap view req =
      if isArpa (queryName q) then answerReverse newRR snap view req (queryName q) q.qtype
      else match localLabel snap (queryName q) with
      | some lbl => answerLocal newRR snap view req (queryName q) lbl q.qtype
      | none =>
        if stubMatch snap (queryName q) ≠ [] then { stub := stubMatch snap (queryName q) }
        else if longestZoneSuffix (queryName q) snap.zones ≠ [] then
          { msg := answerZoneOrVHost newRR snap view req (queryName q)
              (longestZoneSuffix (queryName q) snap.zones) q.qtype }
        else if q.qtype = typeANY then { msg := minimalANY req (queryName q) }
        else { forward := true } := by
  simp only [Special, not_or] at hs
  obtain ⟨hra, hadn, hst⟩ := hs
  have hddr : (snap.ddr.filter fun d => d.adn ≠ [] && queryName q = d.adn) = none := by
    refine Option.eq_none_iff_forall_ne_some.mpr fun d hd => hadn ?_
    obtain ⟨hmem, hne, hname⟩ := filter_adn_eq_some.mp hd
    exact ⟨d, hmem, hne, hname⟩
  have hstatic : answerStatic newRR snap req (queryName q) q.qtype = none := by
    rw [answerStatic, AList.lookup_eq_none.mpr hst]
    rfl
  rw [resolve, hq]
  dsimp only
  rw [if_neg (fun h => hra (atOrBelow_resolverArpa_iff.mp h)), hddr]
  unfold resolveName
  rcases hs : answerStatic newRR snap req (queryName q) q.qtype with _ | out
  · rfl
  · rw [hstatic] at hs
    cases hs

end Precedence

def ask (name : Str) (qtype : RRType) : Msg := { question := [⟨name, qtype, classINET⟩] }

section Ways

variable {newRR : NewRR} {snap : Snapshot} {view : MDNSView} {req : Msg} {q : Question} {name : Str}
  {qtype : RRType}

/-- What the server acts on: whether there is a reply, whether to forward, and the stub targets. -/
def Outcome.way (o : Outcome) : Bool × Bool × List Str := (o.msg.isSome, o.forward, o.stub)

/-- There is a reply, or the query is forwarded, or it goes to stub targets, and only one of it. -/
def Outcome.OneWay (o : Outcome) : Prop :=
  o.way = (true, false, []) ∨ o.way = (false, true, []) ∨
    ∃ targets, targets ≠ [] ∧ o.way = (false, false, targets)

theorem way_answerReverse : (answerReverse newRR snap view req name qtype).way =
    if longestReverseZone name snap.reverseZ = none then (false, true, [])
    else (true, false, []) := by
  unfold answerReverse
  rcases longestReverseZone name snap.reverseZ with _ | rz
  · rfl
  · rw [if_neg (by simp)]
    dsimp only
    split_ifs <;> rfl

theorem way_answerLocal {label : Str} :
    (answerLocal newRR snap view req name label qtype).way = (true, false, []) := by
  unfold answerLocal
  dsimp only
  split
  · rfl
  · unfold answerLocalHost
    split
    · rfl
    · dsimp only
      split_ifs <;> rfl

theorem way_resolve_of_not_special (hq : req.question = [q]) (hs : ¬ Special snap (queryName q)) :
    (resolve newRR snap view req).way =
      if isArpa (queryName q) then
        if longestReverseZone (queryName q) snap.reverseZ = none then (false, true, [])
        else (true, false, [])
      else if (localLabel snap (queryName q)).isSome then (true, false, [])
      else if stubMatch snap (queryName q) ≠ [] then (false, false, stubMatch snap (queryName q))
      else if longestZoneSuffix (queryName q) snap.zones ≠ [] then (true, false, [])
      else if q.qtype = typeANY then (true, false, [])
      else (false, true, []) := by
  rw [resolve_of_not_special hq hs]
  by_cases harpa : isArpa (queryName q) = true
  · rw [if_pos harpa, if_pos harpa, way_answerReverse]
  · rw [if_neg harpa, if_neg harpa]
    rcases localLabel snap (queryName q) with _ | label
    · simp only [Option.isSome_none, Bool.false_eq_true, if_false]
      split_ifs <;> rfl
    · exact way_answerLocal

theorem way_resolve_of_settled
    (h : ∀ q, req.question = [q] → Special snap (queryName q)) :
    (resolve newRR snap view req).way = (true, false, []) := by
  rcases hq : req.question with _ | ⟨q, _ | ⟨q', qs⟩⟩
  · rw [resolve, hq]
    rfl
  · rw [resolve_of_special hq (h q hq)]
    rfl
  · rw [resolve, hq]
    rfl

theorem way_resolve_congr (view view' : MDNSView) :
    (resolve newRR snap view' req).way = (resolve newRR snap view req).way := by
  by_cases h : ∀ q, req.question = [q] → Special snap (queryName q)
  · rw [way_resolve_of_settled h, way_resolve_of_settled h]
  · push Not at h
    obtain ⟨q, hq, hs⟩ := h
    rw [way_resolve_of_not_special hq hs, way_resolve_of_not_special hq hs]

theorem oneWay_resolve : (resolve newRR snap view req).OneWay := by
  unfold Outcome.OneWay
  by_cases h : ∀ q, req.question = [q] → Special snap (queryName q)
  · exact Or.inl (way_resolve_of_settled h)
  · push Not at h
    obtain ⟨q, hq, hs⟩ := h
    rw [way_resolve_of_not_special hq hs]
    by_cases harpa : isArpa (queryName q) = true
    · rw [if_pos harpa]
      split_ifs
      · exact Or.inr (Or.inl rfl)
      · exact Or.inl rfl
    · rw [if_neg harpa]
      split_ifs with hlocal hstub
      · exact Or.inl rfl
      · exact Or.inr (Or.inr ⟨_, hstub, rfl⟩)
      · exact Or.inl rfl
      · exact Or.inl rfl
      · exact Or.inr (Or.inl rfl)

end Ways

section Forwarding

variable {newRR : NewRR} {snap : Snapshot} {view : MDNSView} {req : Msg} {q : Question} {name : Str}

/-- What is forwarded: reverse names outside the reverse zones, and names that no suffix takes,
unless they are asked for all types. -/
theorem forward_iff (hq : req.question = [q]) : (resolve newRR snap view req).forward = true ↔
    ¬ Special snap (queryName q) ∧
      (isArpa (queryName q) = true ∧ ¬ Covered snap.reverseZ (queryName q) ∨
        isArpa (queryName q) = false ∧ ¬ UnderLocal snap (queryName q) ∧
          stubMatch snap (queryName q) = [] ∧ ¬ Covered snap.zones (queryName q) ∧
            q.qtype ≠ typeANY) := by
  have hway : (resolve newRR snap view req).forward = (resolve newRR snap view req).way.2.1 := rfl
  by_cases hs : Special snap (queryName q)
  · rw [resolve_of_special hq hs]
    exact iff_of_false Bool.false_ne_true fun h => h.1 hs
  have hrev := @longestReverseZone_eq_none_iff (queryName q) snap.reverseZ
  have hzone : longestZoneSuffix (queryName q) snap.zones ≠ [] ↔ Covered snap.zones (queryName q) :=
    longestSuffix_ne_nil_iff
  have hlocal : (localLabel snap (queryName q)).isSome ↔ UnderLocal snap (queryName q) := by
    rw [← not_iff_not, ← localLabel_eq_none_iff_not_underLocal, Option.not_isSome_iff_eq_none]
  rw [hway, way_resolve_of_not_special hq hs, and_iff_right hs]
  rcases isArpa (queryName q) with _ | _
  · simp only [Bool.false_eq_true, if_false, false_and, false_or, true_and]
    split_ifs with hunder hstub hcovered hany
    · exact iff_of_false not_false fun h => h.1 (hlocal.mp hunder)
    · exact iff_of_false not_false fun h => hstub h.2.1
    · exact iff_of_false not_false fun h => h.2.2.1 (hzone.mp hcovered)
    · exact iff_of_false not_false fun h => h.2.2.2 hany
    · exact iff_of_true rfl ⟨fun h => hunder (hlocal.mpr h), not_not.mp hstub,
        fun h => hcovered (hzone.mpr h), hany⟩
  · simp only [if_true, true_and, Bool.true_eq_false, false_and, or_false]
    split_ifs with hnone
    · exact iff_of_true rfl (hrev.mp hnone)
    · exact iff_of_false not_false fun h => hnone (hrev.mpr h)

theorem forward_eq_false_iff (hq : req.question = [q]) :
    (resolve newRR snap view req).forward = false ↔
    ¬ (¬ Special snap (queryName q) ∧
      (isArpa (queryName q) = true ∧ ¬ Covered snap.reverseZ (queryName q) ∨
        isArpa (queryName q) = false ∧ ¬ UnderLocal snap (queryName q) ∧
          stubMatch snap (queryName q) = [] ∧ ¬ Covered snap.zones (queryName q) ∧
            q.qtype ≠ typeANY)) := by
  rw [← @forward_iff newRR snap view req q hq, Bool.not_eq_true]

/-- A query for all types is kept unless it is for a reverse name outside the reverse zones. -/
theorem resolve_any_kept_iff (newRR : NewRR) (snap : Snapshot) (view : MDNSView) (req : Msg)
    (q : Question) (hq : req.question = [q]) (hany : q.qtype = typeANY) :
    (resolve newRR snap view req).forward = false ↔
      Special snap (queryName q) ∨ isArpa (queryName q) = false ∨
        Covered snap.reverseZ (queryName q) := by
  rw [forward_eq_false_iff hq]
  simp only [hany, ne_eq, not_true_eq_false, and_false, or_false]
  rw [← Bool.not_eq_true]
  tauto

def siteReverse : Snapshot :=
  { reverseZ := Map.ofList [("2.0.192.in-addr.arpa.".toList,
      { apex := "2.0.192.in-addr.arpa.".toList, soa := {} })] }

/-- Outside the site's reverse zone a query for all types is relayed, elsewhere it is not. -/
theorem resolve_any_forwarded :
    (resolve readLine siteReverse {} (ask "8.8.8.8.in-addr.arpa.".toList typeANY)).forward = true ∧
      (resolve readLine siteReverse {} (ask "example.com.".toList typeANY)).forward = false := by
  decide

theorem resolve_any_kept :
    (resolve readLine siteReverse {} (ask "7.2.0.192.in-addr.arpa.".toList typeANY)).forward =
      false :=
  (resolve_any_kept_iff readLine siteReverse {} _ _ rfl rfl).mpr <| Or.inr <| Or.inr
    ⟨"2.0.192.in-addr.arpa.".toList, by decide, by decide, by decide⟩

/-- The name is in one of the spaces that the resolver answers for itself. -/
def InNamespace (snap : Snapshot) (name : Str) : Prop :=
  AtOrBelow name "local.".toList ∨
    snap.localDomain ≠ [] ∧ AtOrBelow name (snap.localDomain ++ ['.']) ∨
    AtOrBelow name "resolver.arpa.".toList ∨ Covered snap.reverseZ name ∨ Covered snap.zones name

/-- The ways out: a reverse name under no reverse zone; and a bare local suffix, or a name that
only a reverse zone covers without being a reverse name, if no other step takes it. -/
def Escapes (snap : Snapshot) (name : Str) (qtype : RRType) : Prop :=
  ¬ Special snap name ∧
    (isArpa name = true ∧ ¬ Covered snap.reverseZ name ∨
      isArpa name = false ∧
        (name = "local.".toList ∨ snap.localDomain ≠ [] ∧ name = snap.localDomain ++ ['.'] ∨
          Covered snap.reverseZ name) ∧
        ¬ UnderLocal snap name ∧ stubMatch snap name = [] ∧ ¬ Covered snap.zones name ∧
        qtype ≠ typeANY)

theorem bare_of_inNamespace (h : InNamespace snap name) (hs : ¬ Special snap name)
    (hl : ¬ UnderLocal snap name) (hz : ¬ Covered snap.zones name) :
    name = "local.".toList ∨ snap.localDomain ≠ [] ∧ name = snap.localDomain ++ ['.'] ∨
      Covered snap.reverseZ name := by
  rcases h with (h | h) | ⟨hd, h | h⟩ | h | h | h
  · exact Or.inl h
  · exact absurd (Or.inl h) hl
  · exact Or.inr (Or.inl ⟨hd, h⟩)
  · exact absurd (Or.inr ⟨hd, h⟩) hl
  · exact absurd (Or.inl h) hs
  · exact Or.inr (Or.inr h)
  · exact absurd h hz

/-- A name of the resolver's own spaces is kept unless it takes one of the ways out. -/
theorem resolve_namespace_kept_iff (newRR : NewRR) (snap : Snapshot) (view : MDNSView) (req : Msg)
    (q : Question) (hq : req.question = [q]) (hin : InNamespace snap (queryName q)) :
    (resolve newRR snap view req).forward = false ↔ ¬ Escapes snap (queryName q) q.qtype := by
  rw [forward_eq_false_iff hq, Escapes]
  refine not_congr (and_congr_right fun hs => or_congr_right (and_congr_right fun _ => ?_))
  constructor
  · rintro ⟨hl, hstub, hz, hany⟩
    exact ⟨bare_of_inNamespace hin hs hl hz, hl, hstub, hz, hany⟩
  · rintro ⟨-, h⟩
    exact h

def lanSite : Snapshot := { localDomain := "lan".toList }

/-- The bare local suffixes are forwarded. -/
theorem resolve_bare_suffix_forwarded :
    (InNamespace lanSite "local.".toList ∧ InNamespace lanSite "lan.".toList) ∧
      (resolve readLine lanSite {} (ask "local.".toList typeA)).forward = true ∧
      (resolve readLine lanSite {} (ask "lan.".toList typeA)).forward = true :=
  ⟨⟨Or.inl (Or.inl rfl), Or.inr (Or.inl ⟨by decide, Or.inl rfl⟩)⟩, by decide, by decide⟩

theorem resolve_lan_host_kept :
    (resolve readLine lanSite {} (ask "nas.lan.".toList typeA)).forward = false := by
  have hunder : UnderLocal lanSite "nas.lan.".toList := Or.inr ⟨by decide, by decide⟩
  refine (resolve_namespace_kept_iff readLine lanSite {} _ _ rfl
    (Or.inr (Or.inl ⟨by decide, by decide⟩))).mpr ?_
  rintro ⟨-, ⟨harpa, -⟩ | ⟨-, -, hnot, -⟩⟩
  · exact absurd harpa (by decide)
  · exact hnot hunder

end Forwarding

section Stubs

variable {snap : Snapshot} {name : Str}

theorem longestSuffix_eq {apexes : List Str} {apex : Str} (hmem : apex ∈ apexes)
    (hbelow : AtOrBelow name apex) (hne : apex ≠ [])
    (hlongest : ∀ a ∈ apexes, AtOrBelow name a → a.length ≤ apex.length) :
    longestSuffix name apexes = apex := by
  have hle := length_le_longestSuffix hmem hbelow
  rcases longestSuffix_cases name apexes with hnil | ⟨hbest, habove⟩
  · rw [hnil, List.length_nil, Nat.le_zero, List.length_eq_zero_iff] at hle
    exact absurd hle hne
  · have hge := hlongest _ hbest habove
    exact List.IsSuffix.eq_of_length
      (List.suffix_of_suffix_length_le habove.suffix hbelow.suffix hge) (le_antisymm hge hle)

theorem longestSuffix_congr {apexes apexes' : List Str}
    (h : ∀ a, AtOrBelow name a → (a ∈ apexes ↔ a ∈ apexes')) :
    longestSuffix name apexes = longestSuffix name apexes' := by
  have hle : ∀ {l l' : List Str}, (∀ a, AtOrBelow name a → a ∈ l → a ∈ l') →
      (longestSuffix name l).length ≤ (longestSuffix name l').length := by
    intro l l' hsub
    rcases longestSuffix_cases name l with hnil | ⟨hmem, hbelow⟩
    · rw [hnil]
      exact Nat.zero_le _
    · exact length_le_longestSuffix (hsub _ hbelow hmem) hbelow
  have heq := le_antisymm (hle fun a ha => (h a ha).mp) (hle fun a ha => (h a ha).mpr)
  exact (List.suffix_of_suffix_length_le suffix_of_longestSuffix suffix_of_longestSuffix
    heq.le).eq_of_length heq

theorem stubMatch_congr {snap snap' : Snapshot}
    (h : ∀ a, AtOrBelow name a → (snap.stubZones.lookup a).map StubZone.target =
      (snap'.stubZones.lookup a).map StubZone.target) :
    stubMatch snap name = stubMatch snap' name := by
  have hmem : ∀ a, AtOrBelow name a → (a ∈ snap.stubZones.keys ↔ a ∈ snap'.stubZones.keys) := by
    intro a ha
    rw [← AList.mem_keys, ← AList.mem_keys, ← AList.lookup_isSome, ← AList.lookup_isSome,
      ← Option.isSome_map, h a ha, Option.isSome_map]
  rw [stubMatch, stubMatch, ← longestSuffix_congr hmem]
  rcases longestSuffix_cases name snap.stubZones.keys with hnil | ⟨-, hbelow⟩
  · rw [if_pos hnil, if_pos hnil]
  · have htarget := congrArg (Option.map (List.map addrPortString)) (h _ hbelow)
    rw [Option.map_map, Option.map_map] at htarget
    split_ifs
    · rfl
    · exact congrArg (Option.getD · []) htarget

/-- A name whose longest stub zone has targets goes to these, unless it is a reverse name: outside
the reverse zones such a name is forwarded. -/
theorem resolve_stub (newRR : NewRR) (snap : Snapshot) (view : MDNSView) (req : Msg) (q : Question)
    (hq : req.question = [q]) (apex : Str) (zone : StubZone)
    (hzone : snap.stubZones.lookup apex = some zone) (hne : apex ≠ [])
    (hbelow : AtOrBelow (queryName q) apex)
    (hlongest : ∀ a ∈ snap.stubZones, AtOrBelow (queryName q) a → a.length ≤ apex.length)
    (htarget : zone.target ≠ []) (hspecial : ¬ Special snap (queryName q))
    (hlocal : ¬ UnderLocal snap (queryName q)) (hrev : ¬ Covered snap.reverseZ (queryName q)) :
    resolve newRR snap view req =
      if isArpa (queryName q) then { forward := true }
      else { stub := zone.target.map addrPortString } := by
  have hmem := Map.mem_of_lookup hzone
  have hbest : longestSuffix (queryName q) snap.stubZones.keys = apex :=
    longestSuffix_eq (AList.mem_keys.mp hmem) hbelow hne fun a ha =>
      hlongest a (AList.mem_keys.mpr ha)
  have hstub : stubMatch snap (queryName q) = zone.target.map addrPortString := by
    rw [stubMatch, hbest, if_neg hne, hzone]
    rfl
  rw [resolve_of_not_special hq hspecial]
  by_cases harpa : isArpa (queryName q) = true
  · rw [if_pos harpa, if_pos harpa, answerReverse, longestReverseZone_eq_none_iff.mpr hrev]
  · rw [if_neg harpa, if_neg harpa, localLabel_eq_none_iff_not_underLocal.mpr hlocal]
    dsimp only
    rw [if_pos (by simpa [hstub] using htarget), hstub]

/-- Stub zones for a forward and for a reverse subtree of the site. -/
def stubSite : Snapshot :=
  { stubZones := Map.ofList (["lab.example.com.".toList, "10.in-addr.arpa.".toList].map
      fun apex => (apex, { apex, target := [⟨.v4 0x0a000035, 53⟩] })) }

/-- A reverse name in a stub zone is forwarded. -/
theorem reverse_stub_forwarded :
    (¬ Special stubSite "7.0.0.10.in-addr.arpa.".toList ∧
      AtOrBelow "7.0.0.10.in-addr.arpa.".toList "10.in-addr.arpa.".toList) ∧
      resolve readLine stubSite {} (ask "7.0.0.10.in-addr.arpa.".toList typePTR) =
        { forward := true } := by
  decide

theorem forward_stub_taken :
    resolve readLine stubSite {} (ask "a.lab.example.com.".toList typeA) =
      { stub := ["10.0.0.53:53".toList] } := by
  refine (resolve_stub readLine stubSite {} _ ⟨"a.lab.example.com.".toList, typeA, classINET⟩ rfl
    "lab.example.com.".toList _ rfl (by decide) (by decide) ?_ (by decide) (by decide) (by decide)
    ?_).trans (by decide)
  · intro a ha
    rcases List.mem_pair.mp
        (show a ∈ ["lab.example.com.".toList, "10.in-addr.arpa.".toList] from ha)
      with rfl | rfl <;> decide
  · rintro ⟨apex, hmem, -⟩
    exact absurd hmem (AList.notMem_empty _)

end Stubs

end SplitDNS.Resolver
