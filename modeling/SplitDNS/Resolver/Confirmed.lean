import SplitDNS.MDNS.Exact
import SplitDNS.Resolver.Canonical
import SplitDNS.Resolver.Override
import SplitDNS.Resolver.Solicit

/-! # Forward-confirmed reverse names

The pointer of an address names the canonical one of the hosts that claim it. The
name leads back to the address if the local plane serves the address under this
host: it gives trusted addresses only for a managed host, and announced ones only
if the host has no trusted address of the type.
-/

namespace SplitDNS.Resolver

open Go Go.Netip Go.Strings Dns Model

variable {newRR : NewRR} {IsName : Str → Prop} {snap : Snapshot} {view : MDNSView} {req : Msg}
  {c : MDNS.Cache} {now : Time} {ord : RangeOrder Str Unit} {host name : Str} {x : Addr}
  {q : RRType} {r : Model.RR}

def addrType (x : Addr) : RRType := if x.is6 then typeAAAA else typeA

def addrData (x : Addr) : RData := if x.is6 then .aaaa x else .a x

section Serving

theorem mem_localServeAddrs {restricted localScopeOnly : Bool} :
    r ∈ localServeAddrs view host q restricted localScopeOnly ↔
      r ∈ forwardOf view host ∧ servable q localScopeOnly r = true ∧
        (r.trusted = true ∨ restricted = false ∧ ∀ r' ∈ forwardOf view host,
          servable q localScopeOnly r' = true → r'.trusted = false) := by
  set recs := (forwardOf view host).filter (servable q localScopeOnly) with hrecs
  have hmem : r ∈ recs ↔ r ∈ forwardOf view host ∧ servable q localScopeOnly r = true :=
    List.mem_filter
  have hnone : recs.filter (·.trusted) = [] ↔
      ∀ r' ∈ forwardOf view host, servable q localScopeOnly r' = true → r'.trusted = false := by
    simp only [hrecs, List.filter_eq_nil_iff, List.mem_filter, and_imp, Bool.not_eq_true]
  have hserve : localServeAddrs view host q restricted localScopeOnly =
      if recs.filter (·.trusted) ≠ [] then recs.filter (·.trusted)
      else if restricted then [] else recs.filter (!·.trusted) := rfl
  rw [hserve, ← and_assoc, ← hmem, ← hnone]
  by_cases htrusted : recs.filter (·.trusted) = []
  · rw [if_neg (not_not_intro htrusted)]
    have hself : r ∈ recs → r.trusted = false := by
      rw [List.filter_eq_nil_iff] at htrusted
      exact fun hr => Bool.eq_false_iff.mpr (htrusted r hr)
    cases restricted
    · simp only [Bool.false_eq_true, if_false, List.mem_filter, Bool.not_eq_true', htrusted]
      exact and_congr_right fun hr => by simp [hself hr]
    · simp only [if_true, List.not_mem_nil, Bool.true_eq_false, false_and, or_false, false_iff,
        not_and, Bool.not_eq_true]
      exact hself
  · rw [if_pos htrusted, List.mem_filter]
    simp [htrusted]

theorem servable_forward {l : MDNS.Listing} : servable q false l.forward = true ↔
    addrType l.addr = q ∧ l.addr.isValid = true ∧ isServable l.addr = true := by
  rw [servable_iff]
  refine and_congr_right fun _ => ?_
  by_cases hvalid : l.addr.isValid = true
  · have hparse : parseAddr l.forward.content = some l.addr := parseAddr_string hvalid
    simp [hparse, hvalid]
  · have hnone : parseAddr l.addr.string = none := by
      rw [Addr.eq_invalid hvalid]
      decide
    have hparse : parseAddr l.forward.content = none := hnone
    simp [hparse, hvalid]

/-- The local plane gives the address for the host: a trusted one always, another one only if the
host is not managed and has no trusted address of the type. -/
structure Served (snap : Snapshot) (c : MDNS.Cache) (now : Time) (host : Str) (x : Addr) :
    Prop where
  valid : x.isValid = true
  servable : isServable x = true
  tier : c.TrustedNow now host x ∨
    restrictedLabel snap host = false ∧ c.AnnouncedNow now host x ∧
      ∀ y, c.TrustedNow now host y → addrType y = addrType x → y.isValid = true →
        isServable y = false

theorem forwardOf_view : forwardOf (c.view now ord) host =
    (c.listings now host).map MDNS.Listing.forward :=
  MDNS.Cache.forward_view c now ord host

theorem none_trusted_iff :
    (∀ r ∈ forwardOf (c.view now ord) host, servable q false r = true → r.trusted = false) ↔
      ∀ y, c.TrustedNow now host y → addrType y = q → y.isValid = true → isServable y = false := by
  rw [forwardOf_view, List.forall_mem_map]
  constructor
  · intro hall y hy htype hvalid
    obtain ⟨l, hl, rfl, htrusted⟩ := MDNS.Cache.exists_trusted_listing_iff.mpr hy
    by_contra hs
    have huntrusted : l.trusted = false :=
      hall l hl (servable_forward.mpr ⟨htype, hvalid, by simpa using hs⟩)
    rw [htrusted] at huntrusted
    cases huntrusted
  · intro hall l hl hs
    obtain ⟨htype, hvalid, hs⟩ := servable_forward.mp hs
    by_contra huntrusted
    have htrusted : l.trusted = true := Bool.eq_true_of_not_eq_false huntrusted
    have hy := MDNS.Cache.exists_trusted_listing_iff.mp ⟨l, hl, rfl, htrusted⟩
    rw [hall l.addr hy htype hvalid] at hs
    cases hs

theorem exists_served_iff :
    (∃ r ∈ localServeAddrs (c.view now ord) host (addrType x) (restrictedLabel snap host) false,
      r.content = x.string) ↔ Served snap c now host x := by
  simp only [mem_localServeAddrs, none_trusted_iff]
  rw [forwardOf_view]
  constructor
  · rintro ⟨r, ⟨hr, hs, htier⟩, hcontent⟩
    obtain ⟨l, hl, rfl⟩ := List.mem_map.mp hr
    obtain rfl : l.addr = x := Addr.eq_of_string_eq hcontent
    obtain ⟨-, hvalid, hs⟩ := servable_forward.mp hs
    refine ⟨hvalid, hs, ?_⟩
    by_cases htrusted : l.trusted = true
    · exact Or.inl (MDNS.Cache.exists_trusted_listing_iff.mp ⟨l, hl, rfl, htrusted⟩)
    · obtain ⟨hres, hall⟩ := htier.resolve_left htrusted
      have hann := MDNS.Cache.exists_announced_listing_iff.mp
        ⟨l, hl, rfl, Bool.eq_false_iff.mpr htrusted⟩
      exact Or.inr ⟨hres, hann.2, hall⟩
  · rintro ⟨hvalid, hs, htier⟩
    by_cases hx : c.TrustedNow now host x
    · obtain ⟨l, hl, rfl, htrusted⟩ := MDNS.Cache.exists_trusted_listing_iff.mpr hx
      exact ⟨l.forward, ⟨List.mem_map_of_mem hl, servable_forward.mpr ⟨rfl, hvalid, hs⟩,
        Or.inl htrusted⟩, rfl⟩
    · obtain ⟨hres, hann, hall⟩ := htier.resolve_left hx
      obtain ⟨l, hl, rfl, -⟩ := MDNS.Cache.exists_announced_listing_iff.mpr ⟨hx, hann⟩
      exact ⟨l.forward, ⟨List.mem_map_of_mem hl, servable_forward.mpr ⟨rfl, hvalid, hs⟩,
        Or.inr ⟨hres, hall⟩⟩, rfl⟩

theorem toRR_forward_iff {l : MDNS.Listing} {rec : Record} : toRR newRR l.forward name = some rec ↔
    newRR (join [fqdn name, formatUint l.ttl.toNat, classToString classINET,
      typeToString (addrType l.addr), l.addr.string] ' ') = .ok (some rec) := by
  have hrdata : l.forward.rdata = l.addr.string := by
    unfold Model.RR.rdata MDNS.Listing.forward
    cases l.addr.is6 <;> rfl
  rw [toRR_eq_some_iff, hrdata]
  rfl

theorem data_of_toRR_forward (hread : ReadsAddrs newRR IsName) (hname : IsName (fqdn name))
    {l : MDNS.Listing} {rec : Record} (hvalid : l.addr.isValid = true)
    (h : toRR newRR l.forward name = some rec) : rec.data = addrData l.addr := by
  rw [toRR_forward_iff, addrType] at h
  unfold addrData
  split_ifs at h ⊢ with h6
  · exact hread.aaaa hname (parseAddr_string hvalid) h
  · exact hread.a hname (parseAddr_string hvalid) h

theorem is4_of_not_is6 (hvalid : x.isValid = true) (h6 : ¬ x.is6 = true) : x.is4 = true := by
  rcases x with _ | b | ⟨b, z⟩
  · cases hvalid
  · rfl
  · exact absurd rfl h6

theorem exists_toRR_forward (hacc : AcceptsAddrs newRR IsName) (hname : IsName (fqdn name))
    {l : MDNS.Listing} (hvalid : l.addr.isValid = true) (hzone : l.addr.zone = []) :
    ∃ rec, toRR newRR l.forward name = some rec := by
  simp only [toRR_forward_iff, addrType]
  split_ifs with h6
  · exact hacc.aaaa l.ttl hname h6 hzone
  · exact hacc.a l.ttl hname (is4_of_not_is6 hvalid h6)

theorem addrType_cases (x : Addr) : addrType x = typeA ∨ addrType x = typeAAAA := by
  unfold addrType
  split_ifs
  · exact Or.inr rfl
  · exact Or.inl rfl

theorem eq_of_addrData {y : Addr} (h : addrData x = addrData y) : x = y := by
  unfold addrData at h
  split_ifs at h <;> cases h <;> rfl

theorem exists_rendered_iff (hread : ReadsAddrs newRR IsName) (hacc : AcceptsAddrs newRR IsName)
    (hname : IsName (fqdn name)) (hzone : x.zone = []) {restricted : Bool} :
    (∃ rec, some rec ∈ render newRR
      (localServeAddrs (c.view now ord) host (addrType x) restricted false) name (addrType x) ∧
        rec.data = addrData x) ↔
      ∃ r ∈ localServeAddrs (c.view now ord) host (addrType x) restricted false,
        r.content = x.string := by
  have hlisted : ∀ r ∈ localServeAddrs (c.view now ord) host (addrType x) restricted false,
      ∃ l : MDNS.Listing, r = l.forward ∧ addrType l.addr = addrType x ∧
        l.addr.isValid = true := by
    intro r hr
    obtain ⟨hmem, hs, -⟩ := mem_localServeAddrs.mp hr
    rw [forwardOf_view] at hmem
    obtain ⟨l, -, rfl⟩ := List.mem_map.mp hmem
    obtain ⟨htype, hvalid, -⟩ := servable_forward.mp hs
    exact ⟨l, rfl, htype, hvalid⟩
  constructor
  · rintro ⟨rec, hrec, hdata⟩
    obtain ⟨r, hr, -, hrr⟩ := some_mem_render_iff.mp hrec
    obtain ⟨l, rfl, -, hvalid⟩ := hlisted r hr
    rw [data_of_toRR_forward hread hname hvalid hrr] at hdata
    exact ⟨l.forward, hr, congrArg Addr.string (eq_of_addrData hdata)⟩
  · rintro ⟨r, hr, hcontent⟩
    obtain ⟨l, rfl, htype, hvalid⟩ := hlisted r hr
    obtain rfl : l.addr = x := Addr.eq_of_string_eq hcontent
    obtain ⟨rec, hrec⟩ := exists_toRR_forward hacc hname hvalid hzone
    exact ⟨rec, some_mem_render_iff.mpr ⟨_, hr, Or.inr rfl, hrec⟩,
      data_of_toRR_forward hread hname hvalid hrec⟩

theorem answer_localAddrs {resp : Msg} (ha : resp.answer = [])
    (hq : q = typeA ∨ q = typeAAAA) (hhost : (recoverLocalHost snap name).host = some host) :
    ∃ m, (answerLocalHost newRR snap view resp name q).msg = some m ∧ m.answer =
      render newRR (localServeAddrs view host q (restrictedLabel snap host) false) name q := by
  have hne : typeAAAA ≠ typeA := by decide
  unfold answerLocalHost
  rw [hhost]
  dsimp only [localHostAddrs]
  by_cases hnone :
      (decide (localServeAddrs view host typeA (restrictedLabel snap host) false = []) &&
        decide (localServeAddrs view host typeAAAA (restrictedLabel snap host) false = [])) = true
  · rw [if_pos hnone]
    simp only [Bool.and_eq_true, decide_eq_true_eq] at hnone
    refine ⟨_, rfl, ?_⟩
    rcases hq with rfl | rfl
    · rw [hnone.1]
      exact ha
    · rw [hnone.2]
      exact ha
  · rw [if_neg hnone]
    refine ⟨_, rfl, ?_⟩
    rcases hq with rfl | rfl
    · simp [fillLocalAddrs, appendMatching, ha]
    · simp [fillLocalAddrs, appendMatching, ha, hne]

end Serving

section Targets

def pointerName (snap : Snapshot) (host : Str) : Str := host ++ canonicalSuffix snap.localDomain

/-- The local plane reads the name of the host as the host: it is one label that is not reserved,
the local domain is not below the other local suffix, and the name has no other meaning. -/
structure Readable (snap : Snapshot) (host : Str) : Prop where
  label : HostLabel snap host
  domain : ¬ ".local".toList <:+ snap.localDomain
  canonical : toLower (fqdn (pointerName snap host)) = pointerName snap host
  not_special : ¬ Special snap (pointerName snap host)
  not_arpa : isArpa (pointerName snap host) = false

theorem parseDNSSD_single (h : '.' ∉ host) : parseDNSSD host = none := by
  have hmeta : host ≠ dnssdMeta := by
    rintro rfl
    exact h (by decide)
  rw [parseDNSSD, if_neg hmeta, split_of_not_mem h]
  rfl

theorem not_local_suffix {d : Str} (hlocal : d ≠ "local".toList) (hd : ¬ ".local".toList <:+ d) :
    ¬ ".local.".toList <:+ host ++ ('.' :: d ++ ['.']) := by
  intro h
  have hshort : ¬ '.' :: (d ++ ['.']) <:+ "local.".toList := fun hs => by
    have := suffix_of_dot_suffix (show '.' ∉ "local".toList by decide)
      (show _ <:+ "local".toList ++ '.' :: [] from hs)
    simp at this
  have hbelow : AtOrBelow (host ++ '.' :: (d ++ ['.'])) (d ++ ['.']) :=
    Or.inr (List.suffix_append _ _)
  have hbelow' : AtOrBelow (host ++ '.' :: (d ++ ['.'])) ("local".toList ++ ['.']) := Or.inr h
  rcases AtOrBelow.total hbelow hbelow' with (heq | hs) | heq | hs
  · exact hlocal (List.append_cancel_right heq)
  · rw [← List.cons_append, List.suffix_append_self_iff] at hs
    exact hd hs
  · exact hlocal (List.append_cancel_right heq.symm)
  · exact hshort hs

theorem localLabel_pointerName (hd : ¬ ".local".toList <:+ snap.localDomain) :
    localLabel snap (pointerName snap host) = some host := by
  unfold pointerName canonicalSuffix
  by_cases hne : snap.localDomain = []
  · rw [if_neg (not_not_intro hne)]
    exact localLabel_append_local
  · rw [if_pos hne]
    by_cases hlocal : snap.localDomain = "local".toList
    · rw [hlocal]
      exact localLabel_append_local
    · exact localLabel_append_domain hne (not_local_suffix hlocal hd)

theorem recoverLocalHost_of_localLabel (hl : localLabel snap name = some host)
    (h : HostLabel snap host) : (recoverLocalHost snap name).host = some host := by
  have hone : stripOne snap (name, false, false).1 = some (host ++ ['.'], true) :=
    stripOne_of_localLabel hl
  have hall : stripAll snap 8 (name, false, false) = (host ++ ['.'], true, true) := by
    rw [stripAll_of_some hone, stripAll_of_none (stripOne_single h.dot)]
    rfl
  simp [recoverLocalHost, hall, trimSuffix_append, isHostLabel_iff.mpr h]

theorem Readable.localQuery (h : Readable snap host) {qu : Question} (hq : req.question = [qu])
    (hname : qu.name = pointerName snap host) :
    queryName qu = pointerName snap host ∧ LocalQuery snap req qu host := by
  have hqn : queryName qu = pointerName snap host := by
    rw [queryName, hname]
    exact h.canonical
  exact ⟨hqn, hq, hqn ▸ h.not_special, hqn ▸ h.not_arpa, hqn ▸ localLabel_pointerName h.domain⟩

theorem Readable.holds_iff (h : Readable snap host) (hread : ReadsAddrs newRR IsName)
    (hacc : AcceptsAddrs newRR IsName) (hname : IsName (fqdn (pointerName snap host)))
    (hzone : x.zone = []) {qu : Question} (hq : req.question = [qu])
    (hqname : qu.name = pointerName snap host) (htype : qu.qtype = addrType x) :
    (∃ m rec, (resolve newRR snap (c.view now ord) req).msg = some m ∧ some rec ∈ m.answer ∧
      rec.data = addrData x) ↔ Served snap c now host x := by
  obtain ⟨hqn, hlocal⟩ := h.localQuery hq hqname
  have hhost := recoverLocalHost_of_localLabel hlocal.label h.label
  have hsd : (if snap.serveDNSSD then answerDNSSD (c.view now ord)
      { reply req with authoritative := true } (queryName qu) host qu.qtype else none) = none := by
    split_ifs
    · exact answerDNSSD_eq_none_iff.mpr (parseDNSSD_single h.label.dot)
    · rfl
  have hplane : resolve newRR snap (c.view now ord) req = answerLocalHost newRR snap
      (c.view now ord) { reply req with authoritative := true } (queryName qu) qu.qtype := by
    rw [hlocal.resolve_eq, answerLocal, hsd]
  obtain ⟨m, hm, hanswer⟩ := @answer_localAddrs newRR snap (c.view now ord) host (queryName qu)
    qu.qtype { reply req with authoritative := true } rfl (htype ▸ addrType_cases x) hhost
  rw [hplane, hm]
  rw [htype, hqn] at hanswer
  rw [← @exists_served_iff snap c now ord, ← exists_rendered_iff hread hacc hname hzone, ← hanswer]
  simp

end Targets

section Pointers

theorem isArpa_reverseAddr {s arpa : Str} (h : reverseAddr s = some arpa) : isArpa arpa = true := by
  unfold reverseAddr at h
  split at h
  · cases h
    simp [isArpa, hasSuffix]
  · cases h
    simp [isArpa, hasSuffix]
  · cases h

theorem zone_of_reverseAddr {arpa : Str} (h : reverseAddr x.string = some arpa) : x.zone = [] := by
  by_cases hvalid : x.isValid = true
  · rw [reverseAddr, parseAddr_string hvalid] at h
    by_contra hzone
    simp [Option.filter, hzone] at h
  · rw [Addr.eq_invalid hvalid]
    rfl

theorem not_pointer_specialReply (hstatic : name ∉ snap.static) {hdr : Header} {t : Str} :
    some ⟨hdr, .ptr t⟩ ∉ (specialReply newRR snap req name q).answer := by
  unfold specialReply
  split_ifs
  · unfold resolverArpa
    rcases snap.ddr with _ | d
    · simp [reply, setReply]
    · dsimp only
      split_ifs
      · simp [reply, setReply]
      · simp [ddrSVCB]
      · simp [ddrSVCB]
  · split
    · rw [ddrADNReply]
      dsimp only
      split_ifs <;> simp
    · rw [AList.lookup_eq_none.mpr hstatic]
      simp [appendMatching, render, reply, setReply]

theorem mem_answerReverse (hstatic : name ∉ snap.static) {m : Msg} {rr : Dns.RR}
    (hm : (answerReverse newRR snap view req name q).msg = some m) (hrr : rr ∈ m.answer) :
    ∃ rec, canonicalReversePTR ((view.reverse.lookup name).getD []) name snap.localDomain =
      some rec ∧ rr = some rec := by
  unfold answerReverse at hm
  rcases hz : longestReverseZone name snap.reverseZ with _ | rz
  · rw [hz] at hm
    cases hm
  have hrender : render newRR ((snap.static.lookup name).getD []) name typePTR = [] := by
    rw [AList.lookup_eq_none.mpr hstatic]
    rfl
  rw [hz] at hm
  dsimp only at hm
  rw [hrender, if_neg (not_not_intro rfl)] at hm
  split_ifs at hm with hptr hfound
  · obtain rfl := Option.some.inj hm
    obtain ⟨rec, hrec, rfl⟩ := List.mem_map.mp hrr
    exact ⟨rec, Option.mem_toList.mp hrec, rfl⟩
  · obtain rfl := Option.some.inj hm
    rw [answer_setNegativeSOA] at hrr
    cases hrr
  · rename_i hnil
    exact absurd rfl hnil
  · obtain rfl := Option.some.inj hm
    rw [answer_setNegativeSOA] at hrr
    cases hrr

theorem pointer_of_resolve {qu : Question} (hq : req.question = [qu])
    (harpa : isArpa (queryName qu) = true) (hstatic : queryName qu ∉ snap.static) {m : Msg}
    (hm : (resolve newRR snap view req).msg = some m) {hdr : Header} {t : Str}
    (hptr : some ⟨hdr, .ptr t⟩ ∈ m.answer) :
    ∃ p, leastHost ((view.reverse.lookup (queryName qu)).getD []) = some p ∧
      t = pointerName snap p.1 := by
  have hs : ¬ Special snap (queryName qu) := by
    intro hs
    rw [resolve_of_special hq hs] at hm
    obtain rfl := Option.some.inj hm
    exact not_pointer_specialReply hstatic hptr
  rw [resolve_of_not_special hq hs, if_pos harpa] at hm
  obtain ⟨rec, hrec, heq⟩ := mem_answerReverse hstatic hm hptr
  rw [canonicalReversePTR_eq, Option.map_eq_some_iff] at hrec
  obtain ⟨p, hp, rfl⟩ := hrec
  have hdata := congrArg Record.data (Option.some.inj heq)
  exact ⟨p, hp, RData.ptr.inj hdata⟩

theorem exists_live_of_leastHost {arpa : Str} {p : Str × UInt32}
    (h : leastHost (((c.view now ord).reverse.lookup arpa).getD []) = some p) :
    ∃ y, c.Live now p.1 y ∧ reverseAddr y.string = some arpa := by
  obtain ⟨r, hr, hc⟩ := List.mem_filterMap.mp (List.argmin_mem h)
  obtain ⟨⟨-, htarget⟩, -⟩ := candidate_eq_some.mp hc
  obtain ⟨host, l, hl, hrev⟩ := MDNS.Cache.mem_reverse_view.mp hr
  obtain ⟨harpa, -, hfqdn, -⟩ := MDNS.Cache.reverse_eq_some hrev
  have hhost : l.host = p.1 := by
    have hne : r.target ≠ [] := by
      rw [hfqdn]
      simp [MDNS.Listing.fqdn]
    rw [pointsTo, if_neg hne, hfqdn] at htarget
    exact List.append_cancel_right htarget
  have hlive := MDNS.Cache.live_of_listing hl
  rw [← (MDNS.Cache.mem_listings.mp hl).1, hhost] at hlive
  exact ⟨l.addr, hlive, harpa⟩

/-- The pointer of a reverse name that is not static is to a host with an address of this name. If
the local plane reads the target as this host, then the target has the address among its records
exactly if the address is served. -/
theorem reverse_confirmed_iff (newRR : NewRR) (IsName : Str → Prop)
    (hread : ReadsAddrs newRR IsName) (hacc : AcceptsAddrs newRR IsName) (snap : Snapshot)
    (c : MDNS.Cache) (now : Time) (ord : RangeOrder Str Unit) (x : Addr) (arpa : Str)
    (harpa : reverseAddr x.string = some arpa) (hstatic : arpa ∉ snap.static) (req : Msg)
    (qu : Question) (hq : req.question = [qu]) (hname : queryName qu = arpa) (m : Msg)
    (hm : (resolve newRR snap (c.view now ord) req).msg = some m) (hdr : Header) (t : Str)
    (hptr : some ⟨hdr, .ptr t⟩ ∈ m.answer) :
    ∃ host, t = pointerName snap host ∧
      (∃ y, c.Live now host y ∧ reverseAddr y.string = some arpa) ∧
      (Readable snap host → IsName (fqdn t) → ∀ (req' : Msg) (qu' : Question),
        req'.question = [qu'] → qu'.name = t → qu'.qtype = addrType x →
          ((∃ m' rec, (resolve newRR snap (c.view now ord) req').msg = some m' ∧
            some rec ∈ m'.answer ∧ rec.data = addrData x) ↔ Served snap c now host x)) := by
  subst hname
  obtain ⟨p, hp, rfl⟩ := pointer_of_resolve hq (isArpa_reverseAddr harpa) hstatic hm hptr
  refine ⟨p.1, rfl, exists_live_of_leastHost hp, fun hr hn req' qu' hq' hqname htype => ?_⟩
  exact hr.holds_iff hread hacc hn (zone_of_reverseAddr harpa) hq' hqname htype

/-- A site with a local domain and the reverse zone of its network. -/
def homeSite : Snapshot :=
  { localDomain := "lan".toList
    reverseZ := Map.ofList [("0.0.10.in-addr.arpa.".toList,
      { apex := "0.0.10.in-addr.arpa.".toList, soa := {} })] }

def announcedCache (host : Str) : MDNS.Cache :=
  ((MDNS.Cache.empty 0 0 0 1024).apply ⟨host, [.v4 0x0a000005], 120⟩ 0 .none {}).cache

/-- The pointer to an announced host leads back to its address. -/
theorem reverse_confirmed_nas :
    ∃ m' rec, (resolve readLine homeSite ((announcedCache "nas".toList).view 0 default)
      (ask "nas.lan.".toList typeA)).msg = some m' ∧ some rec ∈ m'.answer ∧
        rec.data = addrData (.v4 0x0a000005) := by
  obtain ⟨host, ht, -, hiff⟩ := reverse_confirmed_iff readLine PlainName readsAddrs_readLine
    acceptsAddrs_readLine homeSite (announcedCache "nas".toList) 0 default (.v4 0x0a000005)
    "5.0.0.10.in-addr.arpa.".toList (by decide) (by decide)
    (ask "5.0.0.10.in-addr.arpa.".toList typePTR) _ rfl (by decide) _ rfl
    ⟨"5.0.0.10.in-addr.arpa.".toList, typePTR, classINET, 120⟩ "nas.lan.".toList (by decide)
  obtain rfl : "nas".toList = host := List.append_cancel_right
    (show "nas".toList ++ ".lan.".toList = host ++ ".lan.".toList from ht)
  refine (hiff ⟨⟨by decide, by decide, by decide, by decide⟩, by decide, by decide, by decide,
    by decide⟩ (by decide) _ _ rfl rfl rfl).mpr ⟨by decide, by decide, Or.inr ⟨by decide, ?_, ?_⟩⟩
  · exact ⟨_, rfl, by decide, by decide⟩
  · rintro y ⟨te, hte, -⟩
    cases hte

/-- The pointer to a managed host that is only announced leads nowhere. -/
theorem reverse_unconfirmed_www :
    let view := (announcedCache "www".toList).view 0 default
    (resolve readLine homeSite view (ask "5.0.0.10.in-addr.arpa.".toList typePTR)).msg.map
      (·.answer) = some [some ⟨⟨"5.0.0.10.in-addr.arpa.".toList, typePTR, classINET, 120⟩,
        .ptr "www.lan.".toList⟩] ∧
    (resolve readLine homeSite view (ask "www.lan.".toList typeA)).msg.map (·.answer) =
      some [] := by
  decide +kernel

end Pointers

end SplitDNS.Resolver
