import SplitDNS.Resolver.Existence

/-! # Search-list spellings

A client's search list appends suffixes to a name that was meant on the local
network. Such a spelling is recognised by taking members off its end, eight at
most. Where a local suffix is met on the way, the zone's wildcard adds no record
to the answer; where none is met, the wildcard answers.
-/

namespace SplitDNS.Resolver

open Go Go.Netip Go.Strings Dns Model

variable {newRR : NewRR} {snap : Snapshot} {view : MDNSView} {req resp : Msg} {z : Zone}
  {name owner apex : Str} {q : RRType}

section Stripping

/-- A local suffix ends the name once fewer than `n` apexes have been taken off its end, each the
longest one above what is left. -/
inductive TaintedWithin (snap : Snapshot) : ℕ → Str → Prop
  | here {n : ℕ} {name : Str} : UnderLocal snap name → TaintedWithin snap (n + 1) name
  | zone {n : ℕ} {name x : Str} : ¬ UnderLocal snap name →
    longestZoneSuffix name snap.zones ≠ [] → name = x ++ '.' :: longestZoneSuffix name snap.zones →
    TaintedWithin snap n (x ++ ['.']) → TaintedWithin snap (n + 1) name

theorem taintedWithin_succ_iff {n : ℕ} {rest : Str} (hn : ['.'] <:+ name)
    (hl : localLabel snap name = none) (hs : stripOne snap name = some (rest, false)) :
    TaintedWithin snap (n + 1) name ↔ TaintedWithin snap n rest := by
  obtain ⟨hne, ⟨x, hx, rfl⟩, -⟩ := (stripOne_eq_some_iff hn hl).mp hs
  have hnot := localLabel_eq_none_iff_not_underLocal.mp hl
  constructor
  · rintro (h | ⟨-, -, hy, h⟩)
    · exact absurd h hnot
    · obtain rfl := List.append_cancel_right (hx.symm.trans hy)
      exact h
  · exact fun h => .zone hnot hne hx h

theorem not_taintedWithin_of_none {n : ℕ} (hn : ['.'] <:+ name) (hl : localLabel snap name = none)
    (hs : stripOne snap name = none) : ¬ TaintedWithin snap n name := by
  rintro (h | ⟨-, hne, hx, -⟩)
  · exact localLabel_eq_none_iff_not_underLocal.mp hl h
  · have := (stripOne_eq_some_iff hn hl).mpr ⟨hne, ⟨_, hx, rfl⟩, rfl⟩
    rw [hs] at this
    cases this

theorem stripAll_tainted_iff {n : ℕ} {tainted stripped : Bool} (hn : ['.'] <:+ name) :
    (stripAll snap n (name, tainted, stripped)).2.1 = true ↔
      tainted = true ∨ TaintedWithin snap n name := by
  -- a pass meets a local suffix, after which the flag stays, or takes the longest apex off
  induction n generalizing name tainted stripped with
  | zero => exact ⟨Or.inl, fun h => h.resolve_right nofun⟩
  | succ n ih =>
    rcases hl : localLabel snap name with _ | label
    · rcases hs : stripOne snap name with _ | ⟨rest, isLocal⟩
      · rw [stripAll_of_none hs, or_iff_left (not_taintedWithin_of_none hn hl hs)]
      · obtain ⟨-, ⟨x, -, rfl⟩, rfl⟩ := (stripOne_eq_some_iff hn hl).mp hs
        rw [stripAll_of_some hs, Bool.or_false, ih (List.suffix_append _ _),
          taintedWithin_succ_iff hn hl hs]
    · have hs := stripOne_of_localLabel hl
      have hunder : UnderLocal snap name := by
        by_contra h
        rw [localLabel_eq_none_iff_not_underLocal.mpr h] at hl
        cases hl
      rw [stripAll_of_some hs]
      exact iff_of_true (stripAll_keeps (Bool.or_true _) rfl).1 (Or.inr (.here hunder))

theorem stripAll_stripped {n : ℕ} {s : Str × Bool × Bool} (hs : s.2.1 = true → s.2.2 = true)
    (h : (stripAll snap n s).2.1 = true) : (stripAll snap n s).2.2 = true := by
  induction n generalizing s with
  | zero => exact hs h
  | succ n ih =>
    unfold stripAll at h ⊢
    split at h
    · exact ih (fun _ => rfl) h
    · exact hs h

theorem recoverLocalHost_tainted_iff (hn : ['.'] <:+ name) :
    (recoverLocalHost snap name).tainted = true ↔ TaintedWithin snap 8 name := by
  have hiff := @stripAll_tainted_iff snap name 8 false false hn
  rw [or_iff_right Bool.false_ne_true] at hiff
  constructor
  · exact fun h => hiff.mp (stripAll_tainted h)
  · intro h
    have ht := hiff.mpr h
    have hs := stripAll_stripped (by simp) ht
    simp only [recoverLocalHost, ht, hs, Bool.not_true, Bool.false_eq_true, if_false]

end Stripping

section Inherited

/-- The wildcard's record sets that a host of the local network inherits under its zone name. -/
def inherited (z : Zone) (q : RRType) : List RRset :=
  if q = typeANY then z.wildcards.entries.filter fun p => !overrideStripped p.1
  else if overrideStripped q then [] else [⟨q, rrsetOf (some z.wildcards) q⟩]

theorem renderSets_inherited_of_not_hasWildcard (h : ¬ z.HasWildcard) :
    renderSets newRR (inherited z q) name = [] := by
  have hwc := not_not.mp (not_or.mp h).1
  have hrecs : rrsetOf (some z.wildcards) q = [] := rrsetOf_eq_nil (m := some z.wildcards) hwc q
  unfold inherited
  split_ifs
  · simp [hwc, renderSets]
  · rfl
  · rw [hrecs, renderSets_singleton]
    rfl

theorem answer_mdnsZoneReply (mrecs : List Model.RR) :
    (mdnsZoneReply newRR z req name q mrecs).answer =
      (if q = typeANY ∨ q = typeA ∨ q = typeAAAA then render newRR mrecs name q else []) ++
        renderSets newRR (inherited z q) name := by
  by_cases hany : q = typeANY
  · subst hany
    rw [mdnsZoneReply, if_pos rfl, answer_appendSets, inherited, if_pos rfl, if_pos (Or.inl rfl)]
    rfl
  have hbody : ∀ m : Msg, (if m.answer = [] then setNegativeSOA newRR m z.soa z.apex .success
      else m).answer = m.answer := by
    intro m
    split_ifs
    · rw [answer_setNegativeSOA]
    · rfl
  rw [mdnsZoneReply, if_neg hany, inherited, if_neg hany]
  dsimp only
  rw [hbody]
  by_cases haddr : q = typeA ∨ q = typeAAAA
  · have hover : overrideStripped q = true := by rcases haddr with rfl | rfl <;> rfl
    rw [if_pos (by simpa using haddr), if_pos (Or.inr haddr), if_pos hover]
    exact (List.append_nil _).symm
  · have hnot : ¬ (q = typeANY ∨ q = typeA ∨ q = typeAAAA) := fun h => h.elim hany haddr
    rw [if_neg (by simpa using haddr)]
    by_cases hover : q = typeCNAME ∨ q = typeHTTPS ∨ q = typeSVCB
    · have hs : overrideStripped q = true := by rcases hover with rfl | rfl | rfl <;> rfl
      rw [if_pos (by simpa [or_assoc] using hover), if_neg hnot, if_pos hs]
      rfl
    · have hs : ¬ overrideStripped q = true := by
        simp only [overrideStripped, List.mem_cons, List.not_mem_nil, or_false, decide_eq_true_eq]
        tauto
      rw [if_neg (by simpa [or_assoc] using hover), if_neg hnot, if_neg hs, renderSets_singleton]
      rfl

/-- The record sets of a map that a name with an overridden address keeps. -/
def unstripped (m : RRsets) (q : RRType) : List RRset :=
  if q = typeANY then m.entries.filter fun p => !overrideStripped p.1
  else if overrideStripped q then [] else [⟨q, rrsetOf (some m) q⟩]

/-- The proxy's addresses that answer a query for a redirected name. -/
def proxyAddrs (snap : Snapshot) (q : RRType) : List (RRType × Addr) :=
  [(typeA, snap.vhostV4), (typeAAAA, snap.vhostV6)].filter fun p =>
    (q = typeANY || q = p.1) && p.2.isValid

/-- The answer for a redirected name: the proxy's addresses, then what the name inherits. -/
def vhostAnswer (newRR : NewRR) (snap : Snapshot) (name owner : Str) (q : RRType)
    (zone : Option Zone) : List Dns.RR :=
  (proxyAddrs snap q).map (fun p => addrRR newRR name p.1 p.2.string vhostTTL) ++
    renderSets newRR (unstripped ((vhostInherited zone owner).getD ∅) q) name

theorem proxyAddrs_typeA : proxyAddrs snap typeA =
    if snap.vhostV4.isValid then [(typeA, snap.vhostV4)] else [] := by
  split_ifs with hv <;>
    simp [proxyAddrs, hv, show typeA ≠ typeANY by decide, show typeA ≠ typeAAAA by decide]

theorem proxyAddrs_typeAAAA : proxyAddrs snap typeAAAA =
    if snap.vhostV6.isValid then [(typeAAAA, snap.vhostV6)] else [] := by
  split_ifs with hv <;>
    simp [proxyAddrs, hv, show typeAAAA ≠ typeANY by decide, show typeAAAA ≠ typeA by decide]

theorem map_proxyAddrs_typeANY {β : Type*} (g : RRType × Addr → β) :
    (proxyAddrs snap typeANY).map g =
      (if snap.vhostV4.isValid then [g (typeA, snap.vhostV4)] else []) ++
        if snap.vhostV6.isValid then [g (typeAAAA, snap.vhostV6)] else [] := by
  rcases hv4 : snap.vhostV4.isValid with _ | _ <;>
    rcases hv6 : snap.vhostV6.isValid with _ | _ <;> simp [proxyAddrs, hv4, hv6]

theorem renderSets_unstripped_of_stripped {m : RRsets} (hs : overrideStripped q = true)
    (hany : q ≠ typeANY) : renderSets newRR (unstripped m q) name = [] := by
  rw [unstripped, if_neg hany, if_pos hs]
  rfl

theorem vhostReply_cases (zone : Option Zone) :
    vhostReply newRR snap req name owner q zone =
        { reply req with
          authoritative := true, answer := vhostAnswer newRR snap name owner q zone } ∧
      (vhostAnswer newRR snap name owner q zone ≠ [] ∨
        rrsetOf (vhostInherited zone owner) q ≠ [] ∧ vhostAnswer newRR snap name owner q zone =
          render newRR (rrsetOf (vhostInherited zone owner) q) name q) ∨
    vhostReply newRR snap req name owner q zone =
        vhostNoData newRR { reply req with authoritative := true } zone ∧
      proxyAddrs snap q = [] ∧ vhostAnswer newRR snap name owner q zone = [] := by
  unfold vhostAnswer vhostReply
  dsimp only
  by_cases hA : q = typeA
  · subst hA
    rw [if_pos rfl, renderSets_unstripped_of_stripped (q := typeA) (by decide) (by decide),
      List.append_nil, proxyAddrs_typeA]
    split_ifs with hv
    · exact Or.inl ⟨rfl, Or.inl (List.cons_ne_nil _ _)⟩
    · exact Or.inr ⟨rfl, rfl, rfl⟩
  by_cases h6 : q = typeAAAA
  · subst h6
    rw [if_neg hA, if_pos rfl,
      renderSets_unstripped_of_stripped (q := typeAAAA) (by decide) (by decide), List.append_nil,
      proxyAddrs_typeAAAA]
    split_ifs with hv
    · exact Or.inl ⟨rfl, Or.inl (List.cons_ne_nil _ _)⟩
    · exact Or.inr ⟨rfl, rfl, rfl⟩
  rw [if_neg hA, if_neg h6]
  by_cases hany : q = typeANY
  · subst hany
    have hproxy := @map_proxyAddrs_typeANY snap _ fun p =>
      addrRR newRR name p.1 p.2.string vhostTTL
    rw [if_neg (by decide), if_pos rfl, appendSets_eq, unstripped, if_pos rfl, ← hproxy]
    dsimp only
    split_ifs with hne
    · exact Or.inl ⟨rfl, Or.inl hne⟩
    · have hnil := not_not.mp hne
      rw [hnil]
      exact Or.inr ⟨rfl, List.map_eq_nil_iff.mp (List.append_eq_nil_iff.mp hnil).1, rfl⟩
  have hproxy : proxyAddrs snap q = [] := by
    simp [proxyAddrs, hany, hA, h6]
  rw [hproxy, List.map_nil, List.nil_append]
  by_cases hs : q = typeCNAME ∨ q = typeHTTPS ∨ q = typeSVCB
  · have hover : overrideStripped q = true := by rcases hs with rfl | rfl | rfl <;> rfl
    rw [if_pos (by simpa [or_assoc] using hs)]
    exact Or.inr ⟨rfl, rfl, renderSets_unstripped_of_stripped hover hany⟩
  · have hover : overrideStripped q = false := by
      simp only [overrideStripped, List.mem_cons, List.not_mem_nil, or_false,
        decide_eq_false_iff_not]
      tauto
    have hinherit : renderSets newRR (unstripped ((vhostInherited zone owner).getD ∅) q) name =
        render newRR (rrsetOf (vhostInherited zone owner) q) name q := by
      rw [unstripped, if_neg hany, if_neg (by simp [hover]), renderSets_singleton, rrsetOf_getD]
    rw [if_neg (c := (_ || _) = true) (by simpa [or_assoc] using hs), if_neg hany, hinherit]
    split_ifs with hrr
    · exact Or.inl ⟨rfl, Or.inr ⟨hrr, rfl⟩⟩
    · rw [not_not.mp hrr]
      exact Or.inr ⟨rfl, rfl, rfl⟩

theorem answer_vhostReply (zone : Option Zone) :
    (vhostReply newRR snap req name owner q zone).answer =
      vhostAnswer newRR snap name owner q zone := by
  rcases vhostReply_cases zone with ⟨h, -⟩ | ⟨h, -, hnil⟩
  · rw [h]
  · rw [h, hnil]
    rcases zone with _ | z
    · rfl
    · exact answer_setNegativeSOA _ _ _

end Inherited

section Apexes

variable {zones : Map Str (Option Zone)} {label host : Str} {qu : Question}

theorem stripOne_of_keys_eq (hk : zones.keys = snap.zones.keys) (cur : Str) :
    stripOne { snap with zones } cur = stripOne snap cur := by
  simp only [stripOne, longestZoneSuffix, hk]
  rfl

theorem stripAll_of_keys_eq (hk : zones.keys = snap.zones.keys) (passes : ℕ)
    (s : Str × Bool × Bool) : stripAll { snap with zones } passes s = stripAll snap passes s := by
  induction passes generalizing s with
  | zero => rfl
  | succ passes ih => simp only [stripAll, stripOne_of_keys_eq hk, ih]

theorem recoverLocalHost_of_keys_eq (hk : zones.keys = snap.zones.keys) :
    recoverLocalHost { snap with zones } name = recoverLocalHost snap name := by
  simp only [recoverLocalHost, stripAll_of_keys_eq hk]
  rfl

theorem localHostAddrs_of_keys_eq (hk : zones.keys = snap.zones.keys) (localScopeOnly : Bool) :
    localHostAddrs { snap with zones } view host localScopeOnly =
      localHostAddrs snap view host localScopeOnly := by
  simp only [localHostAddrs, restrictedLabel, hk]

theorem answerLocal_of_keys_eq (hk : zones.keys = snap.zones.keys) :
    answerLocal newRR { snap with zones } view req name label q =
      answerLocal newRR snap view req name label q := by
  simp only [answerLocal, answerLocalHost, recoverLocalHost_of_keys_eq hk,
    localHostAddrs_of_keys_eq hk]

theorem answerZone_of_keys_eq (hk : zones.keys = snap.zones.keys) :
    answerZone newRR { snap with zones } view req z name owner q =
      answerZone newRR snap view req z name owner q := by
  simp only [answerZone, recoverLocalHost_of_keys_eq hk, localRecoveredZoneReply,
    localHostAddrs_of_keys_eq hk]

theorem answerZoneOrVHost_of_keys_eq (hk : zones.keys = snap.zones.keys)
    (hl : zones.lookup apex = snap.zones.lookup apex) :
    answerZoneOrVHost newRR { snap with zones } view req name apex q =
      answerZoneOrVHost newRR snap view req name apex q := by
  simp only [answerZoneOrVHost, hl, answerZone_of_keys_eq hk]
  rfl

/-- The query is left to the zone of the apex by all earlier steps. -/
structure ReachesZone (snap : Snapshot) (name apex : Str) : Prop where
  special : ¬ Special snap name
  arpa : isArpa name = false
  underLocal : ¬ UnderLocal snap name
  stub : stubMatch snap name = []
  apex : longestZoneSuffix name snap.zones = apex

theorem resolve_of_reachesZone (hq : req.question = [qu]) (hne : apex ≠ [])
    (h : ReachesZone snap (queryName qu) apex) : resolve newRR snap view req =
      { msg := answerZoneOrVHost newRR snap view req (queryName qu) apex qu.qtype } := by
  obtain ⟨hspecial, harpa, hlocal, hstub, rfl⟩ := h
  rw [resolve_of_not_special hq hspecial, if_neg (by simp [harpa]),
    localLabel_eq_none_iff_not_underLocal.mpr hlocal]
  dsimp only
  rw [if_neg (not_not_intro hstub), if_pos hne]

theorem forall_msg_of_reachesZone {P : Msg → Prop} (hq : req.question = [qu]) (hne : apex ≠ [])
    (h : ReachesZone snap (queryName qu) apex) :
    (∀ m, (resolve newRR snap view req).msg = some m → P m) ↔
      P (answerZoneOrVHost newRR snap view req (queryName qu) apex qu.qtype) := by
  rw [resolve_of_reachesZone hq hne h]
  simp only [Option.some.injEq, forall_eq']

theorem resolve_of_not_reachesZone (hk : zones.keys = snap.zones.keys)
    (hother : ∀ a, a ≠ apex → zones.lookup a = snap.zones.lookup a) (hq : req.question = [qu])
    (h : ¬ ReachesZone snap (queryName qu) apex) :
    resolve newRR { snap with zones } view req = resolve newRR snap view req := by
  by_cases hs : Special snap (queryName qu)
  · rw [resolve_of_special hq hs, @resolve_of_special newRR { snap with zones } view req qu hq hs]
    rfl
  · have hs' : ¬ Special { snap with zones } (queryName qu) := hs
    have hlocal : localLabel { snap with zones } = localLabel snap := rfl
    have hstub : stubMatch { snap with zones } = stubMatch snap := rfl
    have hlong : ∀ name, longestZoneSuffix name zones = longestZoneSuffix name snap.zones := by
      intro name
      rw [longestZoneSuffix, longestZoneSuffix, hk]
    rw [resolve_of_not_special hq hs, resolve_of_not_special hq hs', hlocal, hstub, hlong]
    by_cases harpa : isArpa (queryName qu) = true
    · rw [if_pos harpa, if_pos harpa]
      rfl
    rw [if_neg harpa, if_neg harpa]
    rcases hl : localLabel snap (queryName qu) with _ | label
    · dsimp only
      split_ifs with hst hapex hany
      · rfl
      · have hne : longestZoneSuffix (queryName qu) snap.zones ≠ apex := fun he => h
          ⟨hs, by simpa using harpa, localLabel_eq_none_iff_not_underLocal.mp hl, not_not.mp hst,
            he⟩
        rw [answerZoneOrVHost_of_keys_eq hk (hother _ hne)]
      · rfl
      · rfl
    · exact answerLocal_of_keys_eq hk

end Apexes

section Wildcards

/-- The zone without its wildcard and the wildcard's tunnel addresses. -/
def withoutWildcard (z : Zone) : Zone :=
  { z with wildcards := ∅, tunnelAddr := z.tunnelAddr.erase ['*'] }

/-- The snapshot in which the zone of the apex has no wildcard. -/
def clearWildcard (snap : Snapshot) (apex : Str) : Snapshot :=
  { snap with zones := snap.zones.replace apex ((snap.zones.lookup apex).join.map withoutWildcard) }

theorem keys_clearWildcard : (clearWildcard snap apex).zones.keys = snap.zones.keys :=
  AList.keys_replace _ _ _

theorem lookup_clearWildcard (hz : snap.zones.lookup apex = some (some z)) (a : Str) :
    (clearWildcard snap apex).zones.lookup a =
      if a = apex then some (some (withoutWildcard z)) else snap.zones.lookup a := by
  rw [clearWildcard, hz]
  exact Map.lookup_replace_of_mem (Map.mem_of_lookup hz) a _

theorem ReachesZone.clearWildcard (h : ReachesZone snap name apex) :
    ReachesZone (clearWildcard snap apex) name apex where
  special := h.special
  arpa := h.arpa
  underLocal := h.underLocal
  stub := h.stub
  apex := by
    rw [longestZoneSuffix, keys_clearWildcard]
    exact h.apex

def Outcome.answer (o : Outcome) : Option (List Dns.RR) := o.msg.map (·.answer)

theorem not_hasWildcard_withoutWildcard : ¬ (withoutWildcard z).HasWildcard := by
  rintro (h | h)
  · exact h rfl
  · rw [Model.Zone.wildcardTunnel, withoutWildcard, AList.lookup_erase] at h
    exact h rfl

/-- The answer for an owner that is not in the zone is the same without the wildcard iff nothing is
inherited, or nothing is synthesized where the name is not spelled with a local suffix. -/
theorem answerZone_withoutWildcard_iff (hr : owner ∉ z.records) (ht : owner ∉ z.tunnelAddr)
    (he : owner ∉ z.ent) :
    (answerZone newRR snap view req (withoutWildcard z) name owner q).answer =
        (answerZone newRR snap view req z name owner q).answer ↔
      if Overlaid snap view name owner then renderSets newRR (inherited z q) name = []
      else (recoverLocalHost snap name).tainted = true ∨
        renderSets newRR (synthesized z q) name = [] := by
  have ht' : owner ∉ (withoutWildcard z).tunnelAddr := fun h => ht (AList.mem_erase.mp h).2
  rw [answerZone_of_absent hr ht he, answerZone_of_absent (z := withoutWildcard z) hr ht' he]
  split_ifs with hover htaint
  · rw [answer_mdnsZoneReply, answer_mdnsZoneReply,
      renderSets_inherited_of_not_hasWildcard not_hasWildcard_withoutWildcard,
      List.append_cancel_left_eq]
    exact eq_comm
  · exact iff_of_true rfl (Or.inl htaint)
  · rw [answer_wildcardOrNX, answer_wildcardOrNX,
      renderSets_synthesized_of_not_hasWildcard not_hasWildcard_withoutWildcard,
      List.append_cancel_left_eq, or_iff_right htaint]
    exact eq_comm

end Wildcards

section SearchList

/-- The name is a host followed by members of the search list, a local suffix among them, and the
last of them the apex. -/
def SearchListName (snap : Snapshot) (name apex : Str) : Prop :=
  ∃ host members last, host ≠ [] ∧ '.' ∉ host ∧ apex = last ++ ['.'] ∧
    (∀ m ∈ members ++ [last], Member snap (m ++ ['.'])) ∧
    (∃ m ∈ members ++ [last], m = "local".toList ∨ snap.localDomain ≠ [] ∧ m = snap.localDomain) ∧
    name = host ++ '.' :: (members ++ [last]).flatMap (· ++ ['.'])

theorem SearchListName.dot_mem_owner (h : SearchListName snap name apex)
    (hl : ¬ UnderLocal snap name) : '.' ∈ relativeOwner name apex := by
  obtain ⟨host, members, last, -, -, rfl, -, ⟨m, hm, hlocal⟩, rfl⟩ := h
  rcases List.eq_nil_or_concat members with rfl | ⟨init, mid, rfl⟩
  · obtain rfl := List.mem_singleton.mp hm
    refine absurd ?_ hl
    rcases hlocal with rfl | ⟨hd, rfl⟩
    · exact Or.inl (by simp)
    · exact Or.inr ⟨hd, by simp⟩
  · have hname : host ++ '.' :: (init ++ [mid] ++ [last]).flatMap (· ++ ['.']) =
        (host ++ '.' :: (init.flatMap (· ++ ['.']) ++ mid)) ++ '.' :: (last ++ ['.']) := by
      simp
    rw [List.concat_eq_append, hname, relativeOwner_append]
    simp

theorem answerZoneOrVHost_of_dot_mem (hz : snap.zones.lookup apex = some (some z))
    (h : '.' ∈ relativeOwner name apex) :
    answerZoneOrVHost newRR snap view req name apex q =
      answerZone newRR snap view req z name (relativeOwner name apex) q := by
  simp [answerZoneOrVHost, isVHostCandidate_of_dot_mem h, hz]

def Silent (newRR : NewRR) (sets : List RRset) (name : Str) : Prop :=
  ∀ p ∈ sets, ∀ r ∈ p.2, (p.1 = typeANY ∨ r.type = p.1) → ¬ r.Renders newRR (fqdn name)

/-- The answer to a search-list spelling whose owner is not in the zone has no record of the zone's
wildcard iff the query does not get to the zone, or the overlay does not know the owner and a local
suffix is met within eight steps, or the wildcard has nothing to give for the type. -/
theorem resolve_searchList_iff (newRR : NewRR) (snap : Snapshot) (view : MDNSView) (req : Msg)
    (q : Question) (hq : req.question = [q]) (apex : Str) (z : Zone)
    (hz : snap.zones.lookup apex = some (some z)) (hn : SearchListName snap (queryName q) apex)
    (hr : relativeOwner (queryName q) apex ∉ z.records)
    (ht : relativeOwner (queryName q) apex ∉ z.tunnelAddr)
    (he : relativeOwner (queryName q) apex ∉ z.ent) :
    (resolve newRR (clearWildcard snap apex) view req).answer =
        (resolve newRR snap view req).answer ↔
      ¬ ReachesZone snap (queryName q) apex ∨
      ¬ Overlaid snap view (queryName q) (relativeOwner (queryName q) apex) ∧
        TaintedWithin snap 8 (queryName q) ∨
      Silent newRR (if Overlaid snap view (queryName q) (relativeOwner (queryName q) apex)
        then inherited z q.qtype else synthesized z q.qtype) (queryName q) := by
  by_cases hreach : ReachesZone snap (queryName q) apex
  · have hne : apex ≠ [] := by
      obtain ⟨-, -, last, -, -, rfl, -⟩ := hn
      simp
    have hdot := hn.dot_mem_owner hreach.underLocal
    have hz' := lookup_clearWildcard hz apex
    rw [if_pos rfl] at hz'
    have hanswer : ∀ m m' : Msg, Outcome.answer { msg := m } = Outcome.answer { msg := m' } ↔
        m.answer = m'.answer := fun m m' => Option.some_inj
    have hcleared : ∀ name owner, answerZone newRR (clearWildcard snap apex) view req
        (withoutWildcard z) name owner q.qtype =
          answerZone newRR snap view req (withoutWildcard z) name owner q.qtype :=
      fun _ _ => answerZone_of_keys_eq keys_clearWildcard
    rw [resolve_of_reachesZone hq hne hreach, resolve_of_reachesZone hq hne hreach.clearWildcard,
      hanswer, answerZoneOrVHost_of_dot_mem hz hdot, answerZoneOrVHost_of_dot_mem hz' hdot,
      hcleared, answerZone_withoutWildcard_iff hr ht he,
      recoverLocalHost_tainted_iff (dot_suffix_queryName q), renderSets_eq_nil_iff,
      renderSets_eq_nil_iff, or_iff_right (not_not_intro hreach)]
    split_ifs with hover
    · rw [or_iff_right fun h => h.1 hover]
      rfl
    · rw [and_iff_right hover]
      rfl
  · refine iff_of_true (congrArg Outcome.answer ?_) (Or.inl hreach)
    refine resolve_of_not_reachesZone keys_clearWildcard (fun a ha => ?_) hq hreach
    exact (lookup_clearWildcard hz a).trans (if_neg ha)

def wildcardZone : Zone :=
  Mirror.buildZone readLine "example.com".toList [] [] (lanAndWildcard.drop 1) noTunnels

def searchSite : Snapshot :=
  { zones := Map.ofList [("example.com.".toList, some wildcardZone)], localDomain := "lan".toList }

/-- A local host with the search domain appended so many times. -/
def respelled (times : ℕ) : Str :=
  "nas".toList ++
    '.' :: ("lan".toList :: List.replicate times "example.com".toList).flatMap (· ++ ['.'])

theorem searchListName_respelled (times : ℕ) :
    SearchListName searchSite (respelled (times + 1)) "example.com.".toList := by
  refine ⟨"nas".toList, "lan".toList :: List.replicate times "example.com".toList,
    "example.com".toList, by decide, by decide, rfl, fun m hm => ?_,
    ⟨"lan".toList, List.mem_cons_self, Or.inr ⟨by decide, rfl⟩⟩, ?_⟩
  · rw [List.cons_append, ← List.replicate_succ', List.mem_cons] at hm
    rcases hm with rfl | hm
    · exact Or.inr (Or.inl ⟨by decide, rfl⟩)
    · rw [List.eq_of_mem_replicate hm]
      exact Or.inr (Or.inr (by decide))
  · rw [respelled, List.cons_append, ← List.replicate_succ']

/-- After eight repetitions the wildcard's address is handed out for a local host. -/
theorem wildcard_for_respelled_host :
    let name := respelled 8
    SearchListName searchSite name "example.com.".toList ∧
      (relativeOwner name "example.com.".toList ∉ wildcardZone.records ∧
        relativeOwner name "example.com.".toList ∉ wildcardZone.tunnelAddr ∧
        relativeOwner name "example.com.".toList ∉ wildcardZone.ent) ∧
      (resolve readLine searchSite {} (ask name typeA)).answer.map
        (·.map fun rr => rr.map (·.data)) = some [some (.a (.v4 0xC0000209))] ∧
      (resolve readLine (clearWildcard searchSite "example.com.".toList) {}
        (ask name typeA)).answer = some [] :=
  ⟨searchListName_respelled 7, by decide, by decide, by decide⟩

theorem respelled_once_without_wildcard :
    (resolve readLine (clearWildcard searchSite "example.com.".toList) {}
        (ask (respelled 1) typeA)).answer =
      (resolve readLine searchSite {} (ask (respelled 1) typeA)).answer := by
  have hname : queryName ⟨respelled 1, typeA, classINET⟩ = respelled 1 := by decide
  have hlocal : UnderLocal searchSite ("nas.lan".toList ++ ['.']) := Or.inr ⟨by decide, by decide⟩
  have htaint : TaintedWithin searchSite 8 (respelled 1) := by
    refine .zone ?_ (by decide) (by decide) (.here hlocal)
    rintro (h | ⟨-, h⟩)
    · exact absurd h (by decide)
    · exact absurd h (by decide)
  refine (resolve_searchList_iff readLine searchSite {} (ask (respelled 1) typeA) _ rfl
    "example.com.".toList wildcardZone rfl (hname ▸ searchListName_respelled 0) (by decide)
    (by decide) (by decide)).mpr (Or.inr (Or.inl ⟨by decide, ?_⟩))
  rw [hname]
  exact htaint

-- a mirrored apex that ends in the search domain hides the local suffix before it
example :
    let site : Snapshot :=
      { zones := Map.ofList
          [("example.com.".toList, some wildcardZone), ("lan.example.com.".toList, none)]
        localDomain := "lan".toList }
    ((resolve readLine site {} (ask (respelled 2) typeA)).answer.map List.length,
      (resolve readLine (clearWildcard site "example.com.".toList) {}
        (ask (respelled 2) typeA)).answer.map List.length) = (some 1, some 0) := by
  decide +kernel

end SearchList

end SplitDNS.Resolver
