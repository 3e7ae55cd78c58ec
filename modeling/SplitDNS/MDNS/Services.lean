import SplitDNS.MDNS.Exact

/-! # Announced services

A packet links a service to a host by a service record. Its owner ends in the
labels of the service type and its target is the host, so the types and the
hosts of the services in the cache have a known form.
-/

namespace SplitDNS.MDNS

open Go Go.Netip Go.Strings Dns Model

section Grammar

variable {name : Str}

/-- One label that does not start with an underscore. -/
structure HostName (h : Str) : Prop where
  ne_nil : h ≠ []
  dot : '.' ∉ h
  underscore : ¬ ['_'] <+: h

/-- Two labels that start with an underscore: a service and its transport. -/
structure ServiceLabels (app proto : Str) : Prop where
  app_underscore : ['_'] <+: app
  proto_underscore : ['_'] <+: proto
  app_dot : '.' ∉ app
  proto_dot : '.' ∉ proto

def IsServiceType (t : Str) : Prop := ∃ app proto, t = app ++ '.' :: proto ∧ ServiceLabels app proto

theorem hostName_canonHost (hne : canonHost name ≠ []) : HostName (canonHost name) ∧
    canonHost name = trimSuffix (trimSuffix (toLower name) ['.']) ".local".toList := by
  unfold canonHost at hne ⊢
  dsimp only at hne ⊢
  split_ifs at hne ⊢ with h
  · exact absurd rfl hne
  · simp only [hasPrefix, Bool.or_eq_true, decide_eq_true_eq, not_or] at h
    exact ⟨⟨h.1.1, h.1.2, h.2⟩, rfl⟩

/-- The lower-cased name is the host under `local`, with or without the dot at the end. -/
def IsLocalName (name h : Str) : Prop :=
  toLower name = h ++ ".local".toList ∨ toLower name = h ++ ".local.".toList

theorem canonHost_of_hostName {h : Str} (hh : HostName h)
    (hname : trimSuffix (trimSuffix (toLower name) ['.']) ".local".toList = h) :
    canonHost name = h := by
  rw [canonHost, hname]
  simp [hh.ne_nil, hh.dot, hasPrefix, hh.underscore]

theorem IsLocalName.trimSuffix {h : Str} (hl : IsLocalName name h) :
    trimSuffix (toLower name) ['.'] = h ++ ".local".toList := by
  rcases hl with hl | hl
  · rw [hl]
    refine trimSuffix_of_not_suffix fun hdot => ?_
    have hlast := List.suffix_of_suffix_length_le hdot (List.suffix_append h ".local".toList)
      (by decide)
    exact absurd hlast (by decide)
  · have hsplit : h ++ ".local.".toList = (h ++ ".local".toList) ++ ['.'] := by simp
    rw [hl, hsplit, trimSuffix_append]

theorem isLocalName_of_trimSuffix {h : Str}
    (hh : Go.Strings.trimSuffix (toLower name) ['.'] = h ++ ".local".toList) :
    IsLocalName name h := by
  by_cases hdot : ['.'] <:+ toLower name
  · refine Or.inr ?_
    rw [← trimSuffix_append_of_suffix hdot, hh]
    simp
  · exact Or.inl ((trimSuffix_of_not_suffix hdot).symm.trans hh)

/-- The hosts are the single labels under `local`, unless the name itself is one label. -/
theorem canonHost_exact_iff (name : Str) :
    (∀ h, (canonHost name = h ∧ h ≠ []) ↔ HostName h ∧ IsLocalName name h) ↔
      ¬ HostName (trimSuffix (toLower name) ['.']) := by
  constructor
  · intro hexact hbare
    have hnot : ¬ ".local".toList <:+ trimSuffix (toLower name) ['.'] :=
      fun hs => hbare.dot (hs.subset (by decide))
    have hcanon := canonHost_of_hostName hbare (trimSuffix_of_not_suffix hnot)
    have hlocal := ((hexact _).mp ⟨hcanon, hbare.ne_nil⟩).2
    exact absurd (List.append_right_eq_self.mp hlocal.trimSuffix.symm) (by decide)
  · intro hbare h
    constructor
    · rintro ⟨rfl, hne⟩
      obtain ⟨hh, heq⟩ := hostName_canonHost hne
      by_cases hs : ".local".toList <:+ trimSuffix (toLower name) ['.']
      · refine ⟨hh, isLocalName_of_trimSuffix ?_⟩
        rw [heq, trimSuffix_append_of_suffix hs]
      · rw [trimSuffix_of_not_suffix hs] at heq
        exact absurd (heq ▸ hh) hbare
    · rintro ⟨hh, hl⟩
      refine ⟨canonHost_of_hostName hh ?_, hh.ne_nil⟩
      rw [hl.trimSuffix, trimSuffix_append]

/-- A bare label outside `local` becomes a host. -/
theorem canonHost_bare_label :
    canonHost "nas.".toList = "nas".toList ∧
      ¬ ∀ h, (canonHost "nas.".toList = h ∧ h ≠ []) ↔ HostName h ∧ IsLocalName "nas.".toList h := by
  refine ⟨by decide, fun hexact => ?_⟩
  obtain ⟨-, hlocal⟩ := (hexact "nas".toList).mp ⟨by decide, by decide⟩
  rcases hlocal with hlocal | hlocal
  · exact absurd hlocal (by decide)
  · exact absurd hlocal (by decide)

theorem isServiceType_serviceType (hne : serviceType name ≠ []) :
    IsServiceType (serviceType name) := by
  unfold serviceType at hne ⊢
  dsimp only at hne ⊢
  split at hne
  next proto app rest hsplit =>
    split_ifs at hne ⊢ with hpre
    · simp only [hasPrefix, Bool.and_eq_true, decide_eq_true_eq] at hpre
      have hlabel : ∀ f ∈ [proto, app], '.' ∉ f := by
        intro f hf
        have hmem : f ∈ proto :: app :: rest := List.mem_append_left rest hf
        rw [← hsplit, List.mem_reverse] at hmem
        exact not_mem_of_mem_split hmem
      exact ⟨app, proto, rfl, hpre.1, hpre.2, hlabel app (by simp), hlabel proto (by simp)⟩
    · exact absurd rfl hne
  · exact absurd rfl hne

theorem mem_parseServices {packet : Option Msg} {svc : Service} (h : svc ∈ parseServices packet) :
    HostName svc.host ∧ IsServiceType svc.type := by
  have hall : ∀ s ∈ parseServices packet, HostName s.host ∧ IsServiceType s.type := by
    unfold parseServices
    refine @List.foldlRecOn _ _ (fun out : List Service =>
      ∀ s ∈ out, HostName s.host ∧ IsServiceType s.type) _ _ _ (by simp) fun out hout r _ => ?_
    split
    next port target hdata =>
      dsimp only
      split_ifs with hempty hseen
      · exact hout
      · exact hout
      · simp only [Bool.or_eq_true, decide_eq_true_eq, not_or] at hempty
        intro s hs
        rcases List.mem_append.mp hs with hs | hs
        · exact hout s hs
        · rw [List.mem_singleton.mp hs]
          exact ⟨(hostName_canonHost hempty.1).1, isServiceType_serviceType hempty.2⟩
    · exact hout
  exact hall svc h

end Grammar

/-- The service that the call adds, if any, is one of a packet. -/
def Method.Parsed (m : Method) : Prop :=
  ∀ svc, m.update = .service svc → ∃ packet, svc ∈ parseServices packet

theorem Method.parsed_of_mem_updates {packet : Option Msg} {trust : Trust} {m : Method}
    (h : m.update ∈ (Drive.packet packet trust).updates) : m.Parsed := by
  intro svc hsvc
  rw [hsvc] at h
  rcases Drive.mem_updates_packet.mp h with ⟨a, -, ha⟩ | ⟨svc', hmem, hu | hu⟩
  · cases ha
  · cases hu
    exact ⟨packet, hmem⟩
  · cases hu

namespace Cache

variable {c : Cache} {a : Announcement} {now : Time} {trust : Trust} {h t : Str} {e : Entry}

theorem refresh_services (c : Cache) (e : Entry) (s : KeySet Addr) (ttl : UInt32) (now : Time) :
    (c.refresh e s ttl now).services = e.services := by
  simp only [refresh]
  split_ifs <;> rfl

theorem mem_services_placed {ord : RangeOrder Str Entry}
    (ht : t ∈ (c.placed a now ord).2.2.services) :
    ∃ e, c.hosts.lookup a.host = some e ∧ t ∈ e.services := by
  unfold placed at ht
  rcases hl : c.hosts.lookup a.host with _ | e
  · rw [hl] at ht
    dsimp only at ht
    rw [refresh_services] at ht
    exact absurd ht (AList.notMem_empty t)
  · rw [hl] at ht
    dsimp only at ht
    rw [refresh_services] at ht
    exact ⟨e, rfl, ht⟩

theorem mem_services_apply {ord : Order}
    (he : (c.apply a now trust ord).cache.hosts.lookup h = some e) (ht : t ∈ e.services) :
    ∃ e₀, c.hosts.lookup h = some e₀ ∧ t ∈ e₀.services := by
  by_cases h₀ : (a.host = [] || a.addrs = []) = true
  · rw [apply_ignored h₀] at he
    exact ⟨e, he, ht⟩
  rw [apply_hosts h₀, Map.lookup_insert_eq_ite] at he
  split_ifs at he with hh
  · cases he
    rw [diffLocked_entry] at ht
    rw [hh]
    exact mem_services_placed ht
  · exact ⟨e, lookup_placed he, ht⟩

theorem of_lookup_amend {host : Str} {f : Entry → Option Entry}
    (he : (c.amend host f).1.hosts.lookup h = some e) :
    c.hosts.lookup h = some e ∨
      h = host ∧ ∃ e₀, c.hosts.lookup host = some e₀ ∧ f e₀ = some e := by
  unfold amend at he
  rcases hb : (c.hosts.lookup host).bind f with _ | e₁
  · rw [hb] at he
    exact Or.inl he
  · rw [hb] at he
    rw [Map.lookup_insert_eq_ite] at he
    split_ifs at he with hh
    · cases he
      exact Or.inr ⟨hh, Option.bind_eq_some_iff.mp hb⟩
    · exact Or.inl he

theorem mem_services_call (m : Method) (he : (c.call m).hosts.lookup h = some e)
    (ht : t ∈ e.services) :
    (∃ e₀, c.hosts.lookup h = some e₀ ∧ t ∈ e₀.services) ∨
      ∃ svc, m.update = .service svc ∧ h = svc.host ∧ t = svc.type := by
  obtain ⟨u, now, trust, ord⟩ := m
  cases u with
  | apply a => exact Or.inl (mem_services_apply he ht)
  | service svc =>
    change (c.applyService _ _ _ _).1.hosts.lookup h = some e at he
    unfold applyService at he
    split_ifs at he
    · exact Or.inl ⟨e, he, ht⟩
    · rcases of_lookup_amend he with he | ⟨rfl, e₀, he₀, hf⟩
      · exact Or.inl ⟨e, he, ht⟩
      · split_ifs at hf
        cases hf
        rcases (AList.mem_insert _).mp ht with rfl | ht
        · exact Or.inr ⟨svc, rfl, rfl, rfl⟩
        · exact Or.inl ⟨e₀, he₀, ht⟩
  | info svc =>
    change (c.applyInfo _ _).1.hosts.lookup h = some e at he
    unfold applyInfo at he
    split_ifs at he
    · exact Or.inl ⟨e, he, ht⟩
    · rcases of_lookup_amend he with he | ⟨rfl, e₀, he₀, hf⟩
      · exact Or.inl ⟨e, he, ht⟩
      · split_ifs at hf
        cases hf
        exact Or.inl ⟨e₀, he₀, ht⟩
  | expire => exact Or.inl ⟨e, lookup_expire he, ht⟩

/-- The services in the cache are of service types and of hosts. -/
def Catalogued (c : Cache) : Prop :=
  ∀ h e, c.hosts.lookup h = some e → ∀ t ∈ e.services, HostName h ∧ IsServiceType t

theorem Catalogued.call (hc : Catalogued c) {m : Method} (hm : m.Parsed) :
    Catalogued (c.call m) := by
  intro h e he t ht
  rcases mem_services_call m he ht with ⟨e₀, he₀, ht⟩ | ⟨svc, hsvc, rfl, rfl⟩
  · exact hc h e₀ he₀ t ht
  · obtain ⟨packet, hmem⟩ := hm svc hsvc
    exact mem_parseServices hmem

theorem catalogued_run (sg gg tg : Duration) (mt : ℤ) {ms : List Method}
    (hms : ∀ m ∈ ms, m.Parsed) : Catalogued (ms.foldl Cache.call (empty sg gg tg mt)) := by
  refine List.foldlRecOn ms Cache.call (fun h e he => ?_) fun c hc m hm => hc.call (hms m hm)
  simp [empty] at he

theorem mem_services_view {ord : RangeOrder Str Unit} {svcs : List MDNSService} {s : MDNSService}
    (hl : (c.view now ord).services.lookup h = some svcs) (hs : s ∈ svcs) :
    ∃ e, c.hosts.lookup h = some e ∧ s.type ∈ e.services := by
  obtain ⟨host, -, hoffer⟩ := List.mem_filterMap.mp (Map.mem_of_lookup_ofList hl)
  obtain ⟨e, he, heq⟩ := Option.map_eq_some_iff.mp hoffer
  cases heq
  refine ⟨e, (Option.filter_eq_some_iff.mp (Option.filter_eq_some_iff.mp he).1).1, ?_⟩
  obtain ⟨p, hp, rfl⟩ := List.mem_map.mp ((List.perm_insertionSort _ _).mem_iff.mp hs)
  exact Map.mem_of_lookup (Map.lookup_eq_some_iff_mem_entries.mpr hp)

end Cache

end SplitDNS.MDNS
