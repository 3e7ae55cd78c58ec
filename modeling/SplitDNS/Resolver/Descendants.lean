import SplitDNS.Resolver.Existence

/-! # Below a denied name

A name that does not exist has nothing below it, as long as the names below it
are answered by the same rule: no host is spelled with a local suffix, no zone
or local suffix begins in between, and no tunnel or service hangs below a name
that the zone builder and the service projection do not count as a node.
-/

namespace SplitDNS.Resolver

open Go Go.Netip Go.Strings Dns Model Mirror

variable {newRR : NewRR} {snap : Snapshot} {view : MDNSView} {req m : Msg} {q : RRType}
  {name apex : Str} {z : Zone}

section Denied

def KnownHost (snap : Snapshot) (view : MDNSView) (host : Str) : Prop :=
  (localHostAddrs snap view host false).1 ≠ [] ∨ (localHostAddrs snap view host false).2.1 ≠ []

instance (host : Str) : Decidable (KnownHost snap view host) := inferInstanceAs (Decidable (_ ∨ _))

/-- The name is a known host spelled with a local suffix. -/
def Spelled (snap : Snapshot) (view : MDNSView) (name : Str) : Prop :=
  ∃ host, recoverLocalHost snap name = ⟨some host, true⟩ ∧ KnownHost snap view host

theorem localServeAddrs_scoped_eq_nil {host : Str} {t : RRType} {restricted : Bool}
    (h : localServeAddrs view host t restricted false = []) :
    localServeAddrs view host t restricted true = [] := by
  have hsub : ∀ r, servable t true r = true → servable t false r = true := by
    intro r
    unfold servable
    rcases parseAddr r.content with _ | ip
    · simp
    · simp only [Option.any_some, Bool.and_eq_true]
      rintro ⟨ht, hip, -⟩
      exact ⟨ht, hip, rfl⟩
  have hnil : ∀ p : Model.RR → Bool,
      ((forwardOf view host).filter (servable t false)).filter p = [] →
      ((forwardOf view host).filter (servable t true)).filter p = [] := by
    intro p hp
    simp only [List.filter_eq_nil_iff, List.mem_filter] at hp ⊢
    exact fun r hr => hp r ⟨hr.1, hsub r hr.2⟩
  unfold localServeAddrs at h ⊢
  dsimp only at h ⊢
  split_ifs at h with ht hr
  · exact absurd h ht
  · rw [if_neg (not_not_intro (hnil _ (not_not.mp ht)))]
    simp [hr]
  · rw [if_neg (not_not_intro (hnil _ (not_not.mp ht))), if_neg hr]
    exact hnil _ h

theorem localHostAddrs_eq_nil {host : Str} (h : ¬ KnownHost snap view host) (b : Bool) :
    (localHostAddrs snap view host b).1 = [] ∧ (localHostAddrs snap view host b).2.1 = [] := by
  obtain ⟨h4, h6⟩ := not_or.mp h
  rw [not_not] at h4 h6
  cases b with
  | false => exact ⟨h4, h6⟩
  | true => exact ⟨localServeAddrs_scoped_eq_nil h4, localServeAddrs_scoped_eq_nil h6⟩

theorem hostAbsent_of_not_spelled (ht : (recoverLocalHost snap name).tainted = true)
    (hs : ¬ Spelled snap view name) (localScopeOnly : Bool) :
    HostAbsent snap view localScopeOnly (recoverLocalHost snap name).host := by
  intro host hhost
  refine localHostAddrs_eq_nil (fun hk => hs ⟨host, ?_, hk⟩) localScopeOnly
  rw [← ht, ← hhost]

end Denied

section Services

variable {x label : Str}

theorem parseDNSSD_eq_none_iff : parseDNSSD label = none ↔
    ∀ proto app host, (split label '.').reverse = proto :: app :: host →
      proto = "_tcp".toList ∨ proto = "_udp".toList → hasPrefix app ['_'] = false := by
  unfold parseDNSSD
  split_ifs with hmeta
  · subst hmeta
    refine iff_of_false (by simp) fun h => ?_
    exact absurd (h "_udp".toList "_dns-sd".toList ["_services".toList] (by decide) (Or.inr rfl))
      (by decide)
  · split
    next proto app host hsplit =>
      by_cases hp : proto = "_tcp".toList ∨ proto = "_udp".toList
      · have hkind :
            (decide (proto ≠ "_tcp".toList) && decide (proto ≠ "_udp".toList)) = false := by
          rw [Bool.and_eq_false_iff, decide_eq_false_iff_not, decide_eq_false_iff_not, not_not,
            not_not]
          exact hp
        rw [hkind, if_neg Bool.false_ne_true]
        constructor
        · intro h proto' app' host' hsplit' _
          obtain ⟨-, hrest⟩ := List.cons.inj (hsplit.symm.trans hsplit')
          obtain ⟨rfl, -⟩ := List.cons.inj hrest
          split_ifs at h with ha
          simpa using ha
        · intro h
          simp [h proto app host hsplit hp]
      · refine iff_of_true ?_ fun proto' app' host' hsplit' hp' => ?_
        · rw [if_pos]
          rw [Bool.and_eq_true, decide_eq_true_eq, decide_eq_true_eq]
          exact not_or.mp hp
        · obtain ⟨rfl, -⟩ := List.cons.inj (hsplit.symm.trans hsplit')
          exact absurd hp' hp
    next hsplit =>
      refine iff_of_true rfl fun proto app host h => ?_
      exact absurd h (hsplit proto app host)

/-- A name below one that is no service discovery node is none either, unless the latter is a
bare protocol label. -/
theorem parseDNSSD_below (h : parseDNSSD label = none) (ht : label ≠ "_tcp".toList)
    (hu : label ≠ "_udp".toList) : parseDNSSD (x ++ '.' :: label) = none := by
  rw [parseDNSSD_eq_none_iff] at h ⊢
  intro proto app host hsplit hproto
  rw [split_append, List.reverse_append] at hsplit
  rcases hl : (split label '.').reverse with _ | ⟨proto', _ | ⟨app', host'⟩⟩
  · exact absurd (List.reverse_eq_nil_iff.mp hl) (split_ne_nil label '.')
  · have hone : label = proto' := by
      rw [← join_split label '.', ← List.reverse_reverse (split label '.'), hl]
      simp [join]
    rw [hl] at hsplit
    obtain rfl := (List.cons.inj hsplit).1
    rcases hproto with rfl | rfl
    · exact absurd hone ht
    · exact absurd hone hu
  · rw [hl] at hsplit
    obtain ⟨rfl, hrest⟩ := List.cons.inj hsplit
    obtain ⟨rfl, -⟩ := List.cons.inj hrest
    exact h _ _ _ hl hproto

end Services

/-- A zone as the builder makes it, with any serial in its start of authority. -/
def Built (newRR : NewRR) (z : Zone) : Prop :=
  ∃ apex zoneID tunnelSuffixes recs tr soa,
    z = { buildZone newRR apex zoneID tunnelSuffixes recs tr with soa := soa }

theorem Built.above (h : Built newRR z) {owner anc : Str} (hanc : anc ≠ [])
    (habove : '.' :: anc <:+ owner) (hnode : owner ∈ z.records ∨ owner ∈ z.ent) :
    anc ∈ z.records ∨ anc ∈ z.ent := by
  obtain ⟨apex, zoneID, tunnelSuffixes, recs, tr, soa, rfl⟩ := h
  rw [or_iff_not_imp_left]
  intro hr
  refine (mem_buildZone_ent newRR apex zoneID tunnelSuffixes recs tr).mpr ⟨hanc, hr, ?_⟩
  rcases hnode with ho | he
  · exact ⟨owner, ho, habove⟩
  · obtain ⟨-, -, o, ho, hsuf⟩ := (mem_buildZone_ent newRR apex zoneID tunnelSuffixes recs tr).mp he
    exact ⟨o, ho, habove.trans ((List.suffix_cons _ _).trans hsuf)⟩

theorem Built.absent_below (h : Built newRR z) {anc : Str} (x : Str) (hanc : anc ≠ [])
    (hr : anc ∉ z.records) (he : anc ∉ z.ent) :
    x ++ '.' :: anc ∉ z.records ∧ x ++ '.' :: anc ∉ z.ent := by
  rw [← not_or]
  intro hnode
  exact (h.above hanc (List.suffix_append _ _) hnode).elim hr he

/-- The name `d` lies below `n`, is not special, and is answered by the same rule: it is no known
host spelled with a local suffix, no zone or local suffix begins in between, a local suffix taken
off `n` is taken off `d`, and neither a tunnel nor service discovery makes it exist. -/
structure SameRule (snap : Snapshot) (view : MDNSView) (n d : Str) : Prop where
  below : '.' :: n <:+ d
  label : ¬ ['.'] <+: n
  notArpa : ¬ ".arpa.".toList <:+ d
  notStatic : d ∉ snap.static
  notADN : ∀ a ∈ snap.ddr, a.adn ≠ d
  notSpelled : ¬ Spelled snap view d
  tainted : (recoverLocalHost snap n).tainted = true → (recoverLocalHost snap d).tainted = true
  notService : snap.serveDNSSD = true →
    localLabel snap n ≠ some "_tcp".toList ∧ localLabel snap n ≠ some "_udp".toList
  noCut : localLabel snap n = none → ∀ m, Member snap m → AtOrBelow d m → ¬ AtOrBelow m n
  notTunnel : localLabel snap n = none → ∀ z,
    snap.zones.lookup (longestZoneSuffix d snap.zones) = some (some z) →
    relativeOwner d (longestZoneSuffix d snap.zones) ∉ z.tunnelAddr

namespace SameRule

variable {n d : Str}

theorem not_special (hrule : SameRule snap view n d) : ¬ Special snap d := by
  rintro (h | ⟨a, ha, -, hname⟩ | h)
  · refine hrule.notArpa (List.IsSuffix.trans ?_ h.suffix)
    decide
  · exact hrule.notADN a ha hname.symm
  · exact hrule.notStatic h

theorem isArpa_eq_false (hrule : SameRule snap view n d) : isArpa d = false := by
  rw [← Bool.not_eq_true]
  simp only [isArpa, hasSuffix, Bool.or_eq_true, decide_eq_true_eq, not_or]
  exact ⟨fun h => hrule.notArpa (.trans (by decide) h),
    fun h => hrule.notArpa (.trans (by decide) h)⟩

theorem exists_localAbsent {label : Str} (hrule : SameRule snap view n d)
    (hlabel : localLabel snap n = some label) (hn : LocalAbsent snap view n label) :
    ∃ label', localLabel snap d = some label' ∧ LocalAbsent snap view d label' := by
  obtain ⟨x, rfl⟩ := hrule.below
  have hld := @localLabel_of_below snap _ x label hlabel
  refine ⟨_, hld, fun hserve => ?_,
    hostAbsent_of_not_spelled (tainted_of_localLabel hld) hrule.notSpelled false⟩
  obtain ⟨ht, hu⟩ := hrule.notService hserve
  exact parseDNSSD_below (hn.1 hserve) (fun h => ht (hlabel.trans (congrArg some h)))
    (fun h => hu (hlabel.trans (congrArg some h)))

theorem exists_owner (hrule : SameRule snap view n d) (hlabel : localLabel snap n = none)
    (hapex : longestZoneSuffix n snap.zones ≠ []) :
    ∃ o, o ≠ [] ∧ o ++ '.' :: longestZoneSuffix n snap.zones = n := by
  obtain ⟨hmem, hbelow⟩ := (longestSuffix_cases n snap.zones.keys).resolve_left hapex
  rcases hbelow with heq | ⟨o, ho⟩
  · have hcut := hrule.noCut hlabel _ (Or.inr (Or.inr (AList.mem_keys.mpr hmem)))
      (AtOrBelow.trans (Or.inr hrule.below) (Or.inl heq))
    exact absurd (Or.inl heq.symm) hcut
  · refine ⟨o, ?_, ho⟩
    rintro rfl
    exact hrule.label ⟨_, ho⟩

theorem apexAbsent (hrule : SameRule snap view n d) (hview : SingleLabels view)
    (hbuilt : ∀ apex z, snap.zones.lookup apex = some (some z) → Built newRR z)
    (hlabel : localLabel snap n = none) (hapex : longestZoneSuffix n snap.zones ≠ [])
    (hn : ApexAbsent snap view n (longestZoneSuffix n snap.zones)) :
    ApexAbsent snap view d (longestZoneSuffix n snap.zones) := by
  have hsame := longestZoneSuffix_eq_of_below hrule.below hapex (hrule.noCut hlabel)
  have htunnel := hrule.notTunnel hlabel
  rw [hsame] at htunnel
  obtain ⟨-, z, hz, habs⟩ := hn
  obtain ⟨o, hone, ho⟩ := hrule.exists_owner hlabel hapex
  obtain ⟨x, hx⟩ := hrule.below
  set apex := longestZoneSuffix n snap.zones
  have hown : relativeOwner n apex = o := by rw [← ho, relativeOwner_append]
  have hownd : relativeOwner d apex = x ++ '.' :: o := by
    rw [← hx, ← ho, ← List.cons_append, ← List.append_assoc, relativeOwner_append]
  have hdot : '.' ∈ relativeOwner d apex := by
    rw [hownd]
    simp
  rw [hown] at habs
  obtain ⟨hrd, hed⟩ := (hbuilt apex z hz).absent_below x hone habs.records habs.ent
  rw [← hownd] at hrd hed
  refine ⟨isVHostCandidate_of_dot_mem hdot, z, hz, hrd, htunnel z hz, hed, fun _ => ?_,
    fun ht => ?_, fun ht => habs.wildcard ?_⟩
  · rw [forwardOf_eq_nil hview (Or.inr hdot)]
    rfl
  · exact hostAbsent_of_not_spelled ht hrule.notSpelled true
  · rw [← Bool.not_eq_true] at ht ⊢
    exact fun h => ht (hrule.tainted h)

theorem absent (hrule : SameRule snap view n d) (hview : SingleLabels view)
    (hbuilt : ∀ apex z, snap.zones.lookup apex = some (some z) → Built newRR z)
    (hstub : localLabel snap d = none → stubMatch snap d = []) (hn : Absent snap view n) :
    Absent snap view d := by
  refine ⟨hrule.not_special, hrule.isArpa_eq_false, ?_⟩
  rcases hn.2.2 with ⟨label, hlabel, hlocal⟩ | ⟨hlabel, -, hapex, hzone⟩
  · exact Or.inl (hrule.exists_localAbsent hlabel hlocal)
  · have hnone := localLabel_eq_none_of_below hrule.below hlabel (hrule.noCut hlabel)
    have hsame := longestZoneSuffix_eq_of_below hrule.below hapex (hrule.noCut hlabel)
    rw [hsame]
    exact Or.inr ⟨hnone, hstub hnone, hapex, hrule.apexAbsent hview hbuilt hlabel hapex hzone⟩

end SameRule

/-- Below a name that is denied no name that is answered by the same rule is answered. -/
theorem resolve_below_nameError (newRR : NewRR) (snap : Snapshot) (view : MDNSView)
    (reqn reqd m m' : Msg) (qn qd : Question) (hqn : reqn.question = [qn])
    (hqd : reqd.question = [qd]) (hview : SingleLabels view)
    (hbuilt : ∀ apex z, snap.zones.lookup apex = some (some z) → Built newRR z)
    (hrule : SameRule snap view (queryName qn) (queryName qd))
    (hn : (resolve newRR snap view reqn).msg = some m) (hcode : m.rcode = .nameError)
    (hd : (resolve newRR snap view reqd).msg = some m') : m'.rcode ≠ .success := by
  have hstub : localLabel snap (queryName qd) = none → stubMatch snap (queryName qd) = [] := by
    intro hnone
    by_contra hne
    rw [resolve_of_not_special hqd hrule.not_special, if_neg (by simp [hrule.isArpa_eq_false]),
      hnone] at hd
    dsimp only at hd
    rw [if_pos hne] at hd
    cases hd
  have habsent := hrule.absent hview hbuilt hstub ((resolve_denies hqn hn).iff.mp hcode)
  rw [(resolve_denies hqd hd).iff.mpr habsent]
  decide +kernel

section Office

def officeZone : Zone :=
  buildZone readLine "example.com".toList [] [] (lanAndWildcard.take 1) noTunnels

/-- The zone is mirrored under a local domain of its own. -/
def office : Snapshot :=
  { zones := Map.ofList [("example.com.".toList, some officeZone)], localDomain := "home".toList }

def printerView : MDNSView :=
  { forward := Map.ofList [("printer".toList,
      [{ name := "printer.local.".toList, type := typeA, ttl := 120, cls := classINET,
         content := "10.0.0.7".toList }])] }

/-- Below a denied name, a host of the local network is found by its search-list spelling. -/
theorem spelled_host_below_denied :
    (resolve readLine office printerView (queryA "home.example.com.".toList)).msg.map (·.rcode) =
        some .nameError ∧
      (resolve readLine office printerView (queryA "printer.home.example.com.".toList)).msg.map
        (fun m => (m.rcode, m.answer.map (·.map (·.data)))) =
        some (.success, [some (.a (.v4 0x0a000007))]) := by
  decide +kernel

theorem eq_of_mem_office {apex : Str} (h : apex ∈ office.zones) : apex = "example.com.".toList :=
  List.mem_singleton.mp h

theorem eq_of_lookup_office {apex : Str} (h : office.zones.lookup apex = some (some z)) :
    z = officeZone := by
  obtain rfl := eq_of_mem_office (Map.mem_of_lookup h)
  exact (Option.some.inj (Option.some.inj h)).symm

theorem sameRule_office : SameRule office printerView "nope.example.com.".toList
    "printer.nope.example.com.".toList where
  below := by decide
  label := by decide
  notArpa := by decide
  notStatic := by decide
  notADN a ha := by cases ha
  notSpelled := by
    rintro ⟨host, hrec, -⟩
    have htaint : (recoverLocalHost office "printer.nope.example.com.".toList).tainted = false := by
      decide
    rw [hrec] at htaint
    cases htaint
  tainted := by decide
  notService := by decide
  noCut := by
    rintro - m (rfl | ⟨-, rfl⟩ | hm)
    · decide
    · decide
    · obtain rfl := eq_of_mem_office hm
      decide
  notTunnel := by
    intro _ z hz
    rw [eq_of_lookup_office hz]
    decide

/-- Below a name that is denied and not a local suffix nothing is answered. -/
theorem denied_below_denied :
    ((resolve readLine office printerView (queryA "printer.nope.example.com.".toList)).msg.map
      (·.rcode)) ≠ some .success := by
  intro h
  obtain ⟨m', hm', hcode⟩ := Option.map_eq_some_iff.mp h
  refine resolve_below_nameError readLine office printerView (queryA "nope.example.com.".toList)
    (queryA "printer.nope.example.com.".toList) _ m' _ _ rfl rfl ?_ ?_ sameRule_office rfl
    (by decide) hm' hcode
  · intro host hhost
    obtain rfl : host = "printer".toList := List.mem_singleton.mp hhost
    decide
  · intro apex z hz
    rw [eq_of_lookup_office hz]
    exact ⟨"example.com".toList, [], [], lanAndWildcard.take 1, noTunnels, officeZone.soa, rfl⟩

end Office

end SplitDNS.Resolver
