import SplitDNS.MDNS.Services
import SplitDNS.Resolver.Existence

/-! # Browsing

A client that browses asks for the service types, then for the instances of a
type and then for the service records of an instance. The classifier of names
knows two transports only, while a packet may announce a service over any.
-/

namespace SplitDNS.Resolver

open Go Go.Netip Go.Strings Dns Model MDNS

variable {newRR : NewRR} {snap : Snapshot} {view : MDNSView} {req resp : Msg} {q : RRType}
  {name label sfx h t app proto : Str}

section Labels

/-- The transports that the classifier of names knows. -/
def KnownTransport (t : Str) : Prop := "._tcp".toList <:+ t ∨ "._udp".toList <:+ t

instance : DecidablePred KnownTransport := fun _ => inferInstanceAs (Decidable (_ ∨ _))

theorem dot_suffix_iff {p : Str} (hp : '.' ∉ p) (hl : '.' ∉ proto) :
    '.' :: p <:+ app ++ '.' :: proto ↔ proto = p := by
  constructor
  · rintro ⟨y, hy⟩
    have hsplit := congrArg (split · '.') hy
    simp only [split_append, split_of_not_mem hp, split_of_not_mem hl] at hsplit
    exact (List.singleton_inj.mp (List.append_inj' hsplit rfl).2).symm
  · rintro rfl
    exact List.suffix_append _ _

theorem knownTransport_iff (hl : ServiceLabels app proto) :
    KnownTransport (app ++ '.' :: proto) ↔ proto = "_tcp".toList ∨ proto = "_udp".toList :=
  or_congr (dot_suffix_iff (by decide) hl.proto_dot) (dot_suffix_iff (by decide) hl.proto_dot)

theorem split_serviceType (hl : ServiceLabels app proto) :
    split (app ++ '.' :: proto) '.' = [app, proto] := by
  rw [split_append, split_of_not_mem hl.app_dot, split_of_not_mem hl.proto_dot]
  rfl

theorem parseDNSSD_of_labels {host : List Str} (hmeta : label ≠ dnssdMeta)
    (hsplit : (split label '.').reverse = proto :: app :: host) (happ : ['_'] <+: app) :
    parseDNSSD label = if proto = "_tcp".toList ∨ proto = "_udp".toList then
      (if host = [] then some (.type (app ++ '.' :: proto))
        else some (.instance (join host.reverse '.') (app ++ '.' :: proto)))
      else none := by
  have hpre : hasPrefix app ['_'] = true := decide_eq_true happ
  have hkind : (decide (proto ≠ "_tcp".toList) && decide (proto ≠ "_udp".toList)) = true ↔
      ¬ (proto = "_tcp".toList ∨ proto = "_udp".toList) := by
    rw [Bool.and_eq_true, decide_eq_true_eq, decide_eq_true_eq, not_or]
  rw [parseDNSSD, if_neg hmeta, hsplit]
  dsimp only
  by_cases hk : proto = "_tcp".toList ∨ proto = "_udp".toList
  · rw [if_pos hk, if_neg fun h => hkind.mp h hk, hpre, Bool.not_true,
      if_neg Bool.false_ne_true]
  · rw [if_neg hk, if_pos (hkind.mpr hk)]

theorem parseDNSSD_type (ht : IsServiceType t) :
    parseDNSSD t = if KnownTransport t then some (.type t) else none := by
  obtain ⟨app, proto, rfl, hl⟩ := ht
  have hsplit := split_serviceType hl
  have hmeta : app ++ '.' :: proto ≠ dnssdMeta := by
    intro h
    have hlen : (split dnssdMeta '.').length = 2 := by rw [← h, hsplit]; rfl
    exact absurd hlen (by decide)
  have hrev : (split (app ++ '.' :: proto) '.').reverse = [proto, app] := by rw [hsplit]; rfl
  rw [parseDNSSD_of_labels hmeta hrev hl.app_underscore, if_pos rfl]
  simp only [knownTransport_iff hl]

theorem parseDNSSD_instance (hh : HostName h) (ht : IsServiceType t) (hk : KnownTransport t) :
    parseDNSSD (h ++ '.' :: t) = some (.instance h t) := by
  obtain ⟨app, proto, rfl, hl⟩ := ht
  have hsplit : split (h ++ '.' :: (app ++ '.' :: proto)) '.' = [h, app, proto] := by
    rw [split_append, split_of_not_mem hh.dot, split_serviceType hl]
    rfl
  have hmeta : h ++ '.' :: (app ++ '.' :: proto) ≠ dnssdMeta := by
    intro heq
    have hlabels : split dnssdMeta '.' = [h, app, proto] := heq ▸ hsplit
    have hhead : h = "_services".toList := (List.cons.inj hlabels).1.symm
    exact hh.underscore (hhead ▸ by decide)
  have hrev : (split (h ++ '.' :: (app ++ '.' :: proto)) '.').reverse = [proto, app, h] := by
    rw [hsplit]
    rfl
  rw [parseDNSSD_of_labels hmeta hrev hl.app_underscore, if_pos ((knownTransport_iff hl).mp hk),
    if_neg (by simp)]
  simp [join]

end Labels

section Suffixes

theorem local_suffix_of_append {d x : Str} (hd : d ≠ [])
    (h : ".local.".toList <:+ x ++ ('.' :: d ++ ['.'])) :
    ".local.".toList <:+ '.' :: d ++ ['.'] := by
  rcases List.suffix_or_suffix_of_suffix h (List.suffix_append x _) with h | h
  · exact h
  · -- the text has a dot at its ends only
    have htails : ∀ s ∈ ".local.".toList.tails, ['.'] <+: s →
        s.length ≤ 1 ∨ s = ".local.".toList := by decide
    rcases htails _ ((List.mem_tails _ _).mpr h) (by simp) with hlen | heq
    · cases d with
      | nil => exact absurd rfl hd
      | cons c d => simp at hlen
    · rw [heq]

theorem localLabel_append (hl : localLabel snap name = some label) :
    ∃ sfx, name = label ++ sfx ∧ ∀ x, localLabel snap (x ++ sfx) = some x := by
  rcases localLabel_eq_some hl with rfl | ⟨hd, hnot, rfl⟩
  · exact ⟨_, rfl, fun x => localLabel_append_local⟩
  · refine ⟨_, rfl, fun x => localLabel_append_domain hd fun h => hnot ?_⟩
    exact (local_suffix_of_append hd h).trans (List.suffix_append _ _)

end Suffixes

section Answers

/-- The answer of the local plane to a query for a name. -/
def localAnswer (newRR : NewRR) (snap : Snapshot) (view : MDNSView) (req : Msg) (name : Str)
    (q : RRType) : List Dns.RR :=
  match localLabel snap name with
  | some label => ((answerLocal newRR snap view req name label q).msg.map (·.answer)).getD []
  | none => []

def Points (answer : List Dns.RR) (t : Str) : Prop := ∃ hdr, some ⟨hdr, .ptr t⟩ ∈ answer

theorem answer_foldl_ptr (l : List Str) (ttl : UInt32) :
    (l.foldl (fun resp t => sdAppend resp typePTR typePTR (.ptr t) name ttl) resp).answer =
      resp.answer ++ l.map fun t => some ⟨⟨name, typePTR, classINET, ttl⟩, .ptr t⟩ := by
  induction l generalizing resp with
  | nil => simp
  | cons t l ih =>
    rw [List.foldl_cons, ih]
    simp [sdAppend]

theorem answer_foldl_srv (l : List MDNSService) (target : Str) (ttl : UInt32) :
    (l.foldl (fun resp s => appendService resp typeSRV name target ttl s) resp).answer =
      resp.answer ++ l.map fun s =>
        some ⟨⟨name, typeSRV, classINET, ttl⟩, .srv 0 0 s.port target⟩ := by
  induction l generalizing resp with
  | nil => simp
  | cons s l ih =>
    have hone : (appendService resp typeSRV name target ttl s).answer = resp.answer ++
        [some ⟨⟨name, typeSRV, classINET, ttl⟩, .srv 0 0 s.port target⟩] := by
      have htxt : ∀ resp : Msg, sdAppend resp typeSRV typeTXT (.txt s.text) name ttl = resp :=
        fun resp => if_neg (by decide)
      simp only [appendService, htxt, ite_self]
      simp [sdAppend]
    rw [List.foldl_cons, ih, hone]
    simp

theorem answer_answerLocalHost (hA : q ≠ typeA) (hAAAA : q ≠ typeAAAA) (hany : q ≠ typeANY)
    (ha : resp.answer = []) :
    ((answerLocalHost newRR snap view resp name q).msg.map (·.answer)).getD [] = [] := by
  unfold answerLocalHost
  rcases (recoverLocalHost snap name).host with _ | host
  · exact ha
  · dsimp only
    split_ifs
    · exact ha
    · exact ha
    · simpa [fillLocalAddrs, hA, hAAAA, hany] using ha

theorem points_localAnswer (hsd : snap.serveDNSSD = true)
    (hl : localLabel snap (label ++ sfx) = some label) {node : DNSSDNode}
    (hnode : parseDNSSD label = some node) (henum : ∀ host typ, node ≠ .instance host typ) :
    Points (localAnswer newRR snap view req (label ++ sfx) typePTR) t ↔
      t ∈ enumerate view sfx node := by
  have hdrop : (label ++ sfx).drop label.length = sfx := List.drop_left
  have hans : localAnswer newRR snap view req (label ++ sfx) typePTR =
      (enumerate view sfx node).map fun t =>
        some ⟨⟨label ++ sfx, typePTR, classINET, dnssdTTL⟩, .ptr t⟩ := by
    rw [localAnswer, hl]
    dsimp only
    rw [answerLocal, if_pos hsd, answerDNSSD, hnode, hdrop]
    rcases node with _ | typ | ⟨host, typ⟩
    · dsimp only
      rw [Option.map_some, answer_foldl_ptr]
      rfl
    · dsimp only
      rw [Option.map_some, answer_foldl_ptr]
      rfl
    · exact absurd rfl (henum host typ)
  rw [hans, Points]
  simp

theorem not_points_localAnswer (hl : localLabel snap name = some label)
    (hnode : parseDNSSD label = none) :
    ¬ Points (localAnswer newRR snap view req name typePTR) t := by
  have hsd : (if snap.serveDNSSD then answerDNSSD view { reply req with authoritative := true } name
      label typePTR else none) = none := by
    split_ifs
    · exact answerDNSSD_eq_none_iff.mpr hnode
    · rfl
  rintro ⟨hdr, hmem⟩
  rw [localAnswer, hl] at hmem
  dsimp only at hmem
  rw [answerLocal, hsd] at hmem
  dsimp only at hmem
  rw [answer_answerLocalHost (by decide) (by decide) (by decide) rfl] at hmem
  cases hmem

theorem exists_srv_localAnswer (hsd : snap.serveDNSSD = true)
    (hl : localLabel snap name = some label)
    (hnode : parseDNSSD label = some (.instance h t)) {s : MDNSService}
    (hs : s ∈ (view.services.lookup h).getD []) (ht : s.type = t) :
    ∃ rec, some rec ∈ localAnswer newRR snap view req name typeSRV ∧ rec.hdr.rrtype = typeSRV := by
  rw [localAnswer, hl]
  dsimp only
  rw [answerLocal, if_pos hsd, answerDNSSD, hnode]
  dsimp only
  rw [Option.map_some, Option.getD_some, answer_foldl_srv]
  refine ⟨_, List.mem_append_right _ (List.mem_map_of_mem (List.mem_filter.mpr ⟨hs, ?_⟩)), rfl⟩
  exact decide_eq_true ht

end Answers

section Closure

def Offers (view : MDNSView) (h t : Str) : Prop :=
  ∃ svcs, view.services.lookup h = some svcs ∧ ∃ s ∈ svcs, s.type = t

theorem offers_iff {view : MDNSView} : Offers view h t ↔
    ∃ p ∈ view.services.entries, p.1 = h ∧ ∃ s ∈ p.2, s.type = t := by
  constructor
  · rintro ⟨svcs, hl, hs⟩
    exact ⟨⟨h, svcs⟩, Map.lookup_eq_some_iff_mem_entries.mp hl, rfl, hs⟩
  · rintro ⟨p, hp, rfl, hs⟩
    exact ⟨p.2, Map.lookup_eq_some_iff_mem_entries.mpr hp, hs⟩

theorem mem_enumerate_types {x : Str} :
    x ∈ enumerate view sfx .types ↔ ∃ t, (∃ h, Offers view h t) ∧ x = t ++ sfx := by
  simp only [enumerate, sortStrings, List.mem_map, (List.perm_insertionSort _ _).mem_iff,
    List.mem_dedup, List.mem_flatMap, offers_iff]
  constructor
  · rintro ⟨t, ⟨p, hp, s, hs, rfl⟩, rfl⟩
    exact ⟨_, ⟨p.1, p, hp, rfl, s, hs, rfl⟩, rfl⟩
  · rintro ⟨t, ⟨h, p, hp, rfl, s, hs, rfl⟩, rfl⟩
    exact ⟨_, ⟨p, hp, s, hs, rfl⟩, rfl⟩

theorem mem_enumerate_type {x : Str} :
    x ∈ enumerate view sfx (.type t) ↔ ∃ h, Offers view h t ∧ x = h ++ '.' :: t ++ sfx := by
  simp only [enumerate, sortStrings, List.mem_map, (List.perm_insertionSort _ _).mem_iff,
    List.mem_filter, List.any_eq_true, decide_eq_true_eq, offers_iff]
  constructor
  · rintro ⟨p, ⟨hp, hs⟩, rfl⟩
    exact ⟨p.1, ⟨p, hp, rfl, hs⟩, rfl⟩
  · rintro ⟨h, ⟨p, hp, rfl, hs⟩, rfl⟩
    exact ⟨p, ⟨hp, hs⟩, rfl⟩

/-- Under each local suffix, every type that is enumerated has an instance, and every instance a
service record. -/
def Browsable (newRR : NewRR) (snap : Snapshot) (view : MDNSView) (req : Msg) : Prop :=
  ∀ types, localLabel snap types = some dnssdMeta →
    ∀ t, Points (localAnswer newRR snap view req types typePTR) t →
      (∃ i, Points (localAnswer newRR snap view req t typePTR) i) ∧
        ∀ i, Points (localAnswer newRR snap view req t typePTR) i →
          ∃ rec, some rec ∈ localAnswer newRR snap view req i typeSRV ∧ rec.hdr.rrtype = typeSRV

theorem browse_type (hsd : snap.serveDNSSD = true) (hsfx : ∀ x, localLabel snap (x ++ sfx) = some x)
    (hlisted : ∀ h t, Offers view h t → HostName h ∧ IsServiceType t) (hoffer : Offers view h t)
    (hk : KnownTransport t) :
    (∃ i, Points (localAnswer newRR snap view req (t ++ sfx) typePTR) i) ∧
      ∀ i, Points (localAnswer newRR snap view req (t ++ sfx) typePTR) i →
        ∃ rec, some rec ∈ localAnswer newRR snap view req i typeSRV ∧ rec.hdr.rrtype = typeSRV := by
  have hnode : parseDNSSD t = some (.type t) := by
    rw [parseDNSSD_type (hlisted h t hoffer).2, if_pos hk]
  have hpoints := fun i =>
    @points_localAnswer newRR snap view req t sfx i hsd (hsfx t) _ hnode nofun
  simp only [hpoints, mem_enumerate_type]
  refine ⟨⟨_, h, hoffer, rfl⟩, ?_⟩
  rintro i ⟨host, ⟨svcs, hl, s, hs, hst⟩, rfl⟩
  obtain ⟨hhost, ht⟩ := hlisted host t ⟨svcs, hl, s, hs, hst⟩
  exact exists_srv_localAnswer hsd (hsfx _) (parseDNSSD_instance hhost ht hk) (by rw [hl]; exact hs)
    hst

theorem browsable_iff (hsd : snap.serveDNSSD = true)
    (hlisted : ∀ h t, Offers view h t → HostName h ∧ IsServiceType t) :
    Browsable newRR snap view req ↔ ∀ h t, Offers view h t → KnownTransport t := by
  have hmeta : parseDNSSD dnssdMeta = some .types := by decide
  constructor
  · intro hb h t hoffer
    by_contra hk
    have hsfx : ∀ x, localLabel snap (x ++ ".local.".toList) = some x :=
      fun x => localLabel_append_local
    obtain ⟨⟨i, hi⟩, -⟩ := hb _ (hsfx dnssdMeta) (t ++ ".local.".toList)
      ((points_localAnswer hsd (hsfx _) hmeta nofun).mpr
        (mem_enumerate_types.mpr ⟨t, ⟨h, hoffer⟩, rfl⟩))
    refine not_points_localAnswer (hsfx t) ?_ hi
    rw [parseDNSSD_type (hlisted h t hoffer).2, if_neg hk]
  · intro hall types htypes x hx
    obtain ⟨sfx, rfl, hsfx⟩ := localLabel_append htypes
    obtain ⟨t, ⟨h, hoffer⟩, rfl⟩ :=
      mem_enumerate_types.mp ((points_localAnswer hsd htypes hmeta nofun).mp hx)
    exact browse_type hsd hsfx hlisted hoffer (hall h t hoffer)

end Closure

/-- Browsing from the enumeration of types leads to service records exactly if all services in the
view are over a known transport. -/
theorem browsable_run_iff (newRR : NewRR) (snap : Snapshot) (hsd : snap.serveDNSSD = true)
    (staleGrace goodbyeGrace trustedGrace : Duration) (maxTrusted : ℤ) (ms : List Method)
    (hms : ∀ m ∈ ms, m.Parsed) (now : Time) (ord : RangeOrder Str Unit) (view : MDNSView)
    (hview : view = (ms.foldl Cache.call
      (.empty staleGrace goodbyeGrace trustedGrace maxTrusted)).view now ord) (req : Msg) :
    Browsable newRR snap view req ↔ ∀ h t, Offers view h t → KnownTransport t := by
  refine browsable_iff hsd fun h t hoffer => ?_
  obtain ⟨svcs, hl, s, hs, rfl⟩ := hoffer
  rw [hview] at hl
  obtain ⟨e, he, ht⟩ := Cache.mem_services_view hl hs
  exact Cache.catalogued_run _ _ _ _ hms h e he _ ht

/-- A packet with the address of a host and a service of the type on it. -/
def laserPacket (type : Str) : Option Msg :=
  some { response := true, answer :=
    [some ⟨⟨"nas.local.".toList, typeA, classINET, 120⟩, .a (.v4 0x0a000005)⟩,
      some ⟨⟨"laser.".toList ++ type ++ ".local.".toList, typeSRV, classINET, 120⟩,
        .srv 0 0 631 "nas.local.".toList⟩] }

def laserCalls (type : Str) : List Method :=
  (Drive.packet (laserPacket type) .none).updates.map fun u => ⟨u, 0, .none, {}⟩

theorem laserCalls_parsed (type : Str) : ∀ m ∈ laserCalls type, m.Parsed := by
  intro m hm
  obtain ⟨u, hu, rfl⟩ := List.mem_map.mp hm
  exact Method.parsed_of_mem_updates hu

def laserView (type : Str) : MDNSView :=
  ((laserCalls type).foldl Cache.call (.empty 0 0 0 1024)).view 0 default

def browseSite : Snapshot := { localDomain := "lan".toList, serveDNSSD := true }

/-- A service over another transport is enumerated, and has no instances. -/
theorem browse_unknown_transport :
    (∀ m ∈ laserCalls "_ipp._sctp".toList, m.Parsed) ∧
      Points (localAnswer readLine browseSite (laserView "_ipp._sctp".toList) {}
        "_services._dns-sd._udp.lan.".toList typePTR) "_ipp._sctp.lan.".toList ∧
      localAnswer readLine browseSite (laserView "_ipp._sctp".toList) {}
        "_ipp._sctp.lan.".toList typePTR = [] := by
  refine ⟨laserCalls_parsed _, ⟨⟨"_services._dns-sd._udp.lan.".toList, typePTR, classINET, 120⟩,
    ?_⟩, ?_⟩
  · decide
  · decide

theorem browsable_laser :
    Browsable readLine browseSite (laserView "_ipp._tcp".toList) {} := by
  refine (browsable_run_iff readLine browseSite rfl 0 0 0 1024 _
    (laserCalls_parsed "_ipp._tcp".toList) 0 default _ rfl {}).mpr ?_
  intro h t hoffer
  obtain ⟨p, hp, -, s, hs, rfl⟩ := offers_iff.mp hoffer
  have hall : ∀ p ∈ (laserView "_ipp._tcp".toList).services.entries, ∀ s ∈ p.2,
      KnownTransport s.type := by decide
  exact hall p hp s hs

end SplitDNS.Resolver
