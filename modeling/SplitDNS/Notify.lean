import SplitDNS.MDNS.Permuted

/-! # Announcements of the notify command

The command writes the addresses of a host into a multicast response, and the
resolver reads announcements from such responses. What is read is what was
given, for a host of one label that is no service name; an address loses its
zone on the way.
-/

namespace SplitDNS.Notify

open Go Go.Netip Go.Strings Dns MDNS

/-- The host without white space and without the suffixes that may be given. -/
def bareHost (h : Str) : Str :=
  trimSuffix (trimSuffix (toLower (trimSpace h)) ['.']) ".local".toList

def normalizeHost (h : Str) : Str := bareHost h ++ ".local.".toList

/-- The address of one token, unmapped. `quote` is the verb for quoted text. -/
def parseToken (quote : Str → Str) (tok : Str) : Except Str Addr :=
  match parseAddr tok with
  | none => .error ("invalid address ".toList ++ quote tok)
  | some a => .ok a.unmap

/-- The addresses of the arguments, each of which may be several separated by spaces. -/
def parseAddrs (quote : Str → Str) (args : List Str) : Except Str (List Addr) :=
  match (args.flatMap fields).mapM (parseToken quote) with
  | .error e => .error e
  | .ok out => if out = [] then .error "no addresses given".toList else .ok out

/-- The address that is left of the bytes of an address. -/
def withoutZone : Addr → Addr
  | .v6 b _ => .v6 b []
  | a => a

/-- The addresses of a list that can be announced, as they are read. -/
def announcedAddrs (addrs : List Addr) : List Addr :=
  ((addrs.filter fun a => a.isValid && !a.isLinkLocalUnicast).map
    fun a => withoutZone a.unmap).eraseDups

def addressRecord (host : Str) (ttl : UInt32) (cls : UInt16) (a : Addr) : Record :=
  if a.is4 then ⟨⟨host, typeA, cls, ttl⟩, .a a⟩
  else ⟨⟨host, typeAAAA, cls, ttl⟩, .aaaa (withoutZone a)⟩

def buildAnnouncement (host : Str) (addrs : List Addr) (ttl : UInt32) (cacheFlush : Bool) :
    Except Str Msg :=
  let cls := if cacheFlush then classINET ||| 0x8000 else classINET
  let m : Msg :=
    { response := true
      authoritative := true
      answer := addrs.map fun a => some (addressRecord host ttl cls a) }
  if m.answer = [] then .error "no answers built".toList else .ok m

section Receiver

variable {h : Str} {l : List (Addr × UInt32)}

theorem addrs_gather (h : Str) (l : List (Addr × UInt32)) :
    (gather h l).addrs = (l.map Prod.fst).eraseDups := by
  induction l using List.reverseRecOn with
  | nil => rfl
  | append_singleton l p ih =>
    rw [gather_concat, Announcement.add, List.map_append, List.eraseDups_append, ← ih]
    have hknown : p.1 ∈ (gather h l).addrs ↔ p.1 ∈ l.map Prod.fst := by
      rw [ih]
      exact List.mem_eraseDups
    by_cases hmem : p.1 ∈ l.map Prod.fst
    · rw [if_pos (hknown.mpr hmem)]
      simp only [List.removeAll, List.map_cons, List.map_nil, List.filter_cons, List.filter_nil,
        List.elem_eq_mem, hmem, decide_true, Bool.not_true, Bool.false_eq_true, if_false,
        List.eraseDups_nil, List.append_nil]
    · rw [if_neg (mt hknown.mp hmem)]
      simp only [List.removeAll, List.map_cons, List.map_nil, List.filter_cons, List.filter_nil,
        List.elem_eq_mem, hmem, decide_false, Bool.not_false, if_true]
      rfl

theorem gather_eq {ttl : UInt32} (hl : l ≠ []) (hsame : ∀ p ∈ l, p.2 = ttl) :
    gather h l = ⟨h, (l.map Prod.fst).eraseDups, ttl⟩ := by
  obtain ⟨p, hp, httl⟩ := @ttl_gather_mem h l hl
  calc gather h l = ⟨(gather h l).host, (gather h l).addrs, (gather h l).ttl⟩ := rfl
    _ = ⟨h, (l.map Prod.fst).eraseDups, ttl⟩ := by
      rw [gather_host, addrs_gather, ← httl, hsame p hp]

theorem foldl_announce_one {rs : List Record}
    (hone : ∀ r ∈ rs, ∀ p, accepted r = some p → p.1 = h) :
    rs.foldl announce [] =
      if rs.filterMap (fun r => (accepted r).map Prod.snd) = [] then []
      else [gather h (rs.filterMap fun r => (accepted r).map Prod.snd)] := by
  induction rs using List.reverseRecOn with
  | nil => rfl
  | append_singleton rs r ih =>
    rw [List.foldl_append, List.foldl_cons, List.foldl_nil,
      ih fun r' hr' => hone r' (List.mem_append_left _ hr'), announce_eq, List.filterMap_append]
    generalize rs.filterMap (fun r => (accepted r).map Prod.snd) = l
    cases hr : accepted r with
    | none => simp [hr]
    | some p =>
      obtain rfl := hone r (by simp) p hr
      by_cases hl : l = []
      · simp [hl, hr]
      · simp [hl, hr, gather_host, gather_concat]

end Receiver

section Sender

variable {quote : Str → Str} {args : List Str} {addrs : List Addr} {host : Str} {ttl : UInt32}
  {cls : UInt16}

theorem toLower_bareHost (host : Str) : toLower (bareHost host) = bareHost host :=
  toLower_trimSuffix (toLower_trimSuffix (toLower_toLower _))

theorem canonHost_normalizeHost (hne : bareHost host ≠ []) (hdot : '.' ∉ bareHost host)
    (hservice : ¬ ['_'] <+: bareHost host) : canonHost (normalizeHost host) = bareHost host := by
  have hlower : toLower (normalizeHost host) = (bareHost host ++ ".local".toList) ++ ['.'] := by
    rw [normalizeHost, toLower, List.map_append, ← toLower, toLower_bareHost]
    simp
  rw [canonHost, hlower, trimSuffix_append, trimSuffix_append]
  simp [hne, hdot, hasPrefix, hservice]

theorem mapM_parseToken {toks : List Str} (h : toks.mapM (parseToken quote) = .ok addrs) :
    ∀ a ∈ addrs, a.isValid = true ∧ a.unmap = a := by
  induction toks generalizing addrs with
  | nil =>
    cases h
    simp
  | cons tok toks ih =>
    rw [List.mapM_cons, parseToken] at h
    cases htok : parseAddr tok with
    | none =>
      rw [htok] at h
      cases h
    | some x =>
      cases hrest : toks.mapM (parseToken quote) with
      | error e =>
        rw [htok, hrest] at h
        cases h
      | ok rest =>
        rw [htok, hrest] at h
        cases h
        intro a ha
        rcases List.mem_cons.mp ha with rfl | ha
        · exact ⟨Addr.isValid_unmap (isValid_of_parseAddr htok), Addr.unmap_unmap x⟩
        · exact ih hrest a ha

theorem parseAddrs_spec (h : parseAddrs quote args = .ok addrs) :
    ∀ a ∈ addrs, a.isValid = true ∧ a.unmap = a := by
  unfold parseAddrs at h
  cases hout : (args.flatMap fields).mapM (parseToken quote) with
  | error e =>
    rw [hout] at h
    cases h
  | ok out =>
    rw [hout] at h
    dsimp only at h
    split_ifs at h
    cases h
    exact mapM_parseToken hout

theorem announcedAddrs_of_parseAddrs (h : parseAddrs quote args = .ok addrs) :
    announcedAddrs addrs =
      ((addrs.filter fun a => !a.isLinkLocalUnicast).map withoutZone).eraseDups := by
  have hspec := parseAddrs_spec h
  have hfilter : addrs.filter (fun a => a.isValid && !a.isLinkLocalUnicast) =
      addrs.filter fun a => !a.isLinkLocalUnicast := by
    apply List.filter_congr
    intro a ha
    rw [(hspec a ha).1, Bool.true_and]
  rw [announcedAddrs, hfilter]
  refine congrArg List.eraseDups (List.map_congr_left ?_)
  intro a ha
  rw [(hspec a (List.mem_filter.mp ha).1).2]

theorem unmap_withoutZone (a : Addr) : (withoutZone a).unmap = withoutZone a.unmap := by
  cases a with
  | invalid => rfl
  | v4 b => rfl
  | v6 b z =>
    change (if (Addr.v6 b z).is4In6 then .v4 (b.setWidth 32) else Addr.v6 b []) =
      withoutZone (if (Addr.v6 b z).is4In6 then .v4 (b.setWidth 32) else .v6 b z)
    split_ifs <;> rfl

theorem isLinkLocalUnicast_withoutZone (a : Addr) :
    (withoutZone a).isLinkLocalUnicast = a.isLinkLocalUnicast := by
  rw [Addr.isLinkLocalUnicast, Addr.isLinkLocalUnicast, unmap_withoutZone]
  cases a.unmap <;> rfl

theorem recordAddr_addressRecord (a : Addr) :
    recordAddr (addressRecord host ttl cls a).data =
      if a.isValid then some (withoutZone a) else none := by
  cases a <;> rfl

theorem accepted_addressRecord (hhost : canonHost host ≠ []) (a : Addr) :
    accepted (addressRecord host ttl cls a) =
      if a.isValid && !a.isLinkLocalUnicast then some (canonHost host, withoutZone a.unmap, ttl)
      else none := by
  have hhdr : (addressRecord host ttl cls a).hdr.name = host ∧
      (addressRecord host ttl cls a).hdr.ttl = ttl := by
    cases a <;> exact ⟨rfl, rfl⟩
  have hvalid : (withoutZone a).isValid = a.isValid := by cases a <;> rfl
  have hlocal : (withoutZone a.unmap).isLinkLocalUnicast = a.isLinkLocalUnicast := by
    rw [isLinkLocalUnicast_withoutZone, Addr.isLinkLocalUnicast, Addr.unmap_unmap]
    rfl
  rw [accepted, recordAddr_addressRecord, hhdr.1, hhdr.2]
  cases ha : a.isValid with
  | false => rfl
  | true =>
    cases h : a.isLinkLocalUnicast <;> simp [hhost, hvalid, unmap_withoutZone, hlocal, ha, h]

theorem buildAnnouncement_ok {cacheFlush : Bool} {m : Msg}
    (h : buildAnnouncement host addrs ttl cacheFlush = .ok m) :
    ∃ cls, m.response = true ∧ m.extra = [] ∧
      m.answer = (addrs.map (addressRecord host ttl cls)).map some := by
  unfold buildAnnouncement at h
  dsimp only at h
  generalize (if cacheFlush = true then classINET ||| 0x8000 else classINET) = cls at h
  split_ifs at h
  cases h
  exact ⟨cls, rfl, rfl, (List.map_map).symm⟩

theorem parsePacket_of_answer {m : Msg} {rs : List Record} (hresponse : m.response = true)
    (hextra : m.extra = []) (hanswer : m.answer = rs.map some) :
    parsePacket (some m) = rs.foldl announce [] := by
  have hannounced : announced (some m) = rs := by
    simp [announced, hresponse, hextra, hanswer]
  rw [parsePacket, hannounced]
  rfl

theorem offered_eq (hhost : canonHost host ≠ []) (addrs : List Addr) :
    (addrs.map (addressRecord host ttl cls)).filterMap (fun r => (accepted r).map Prod.snd) =
      (addrs.filter fun a => a.isValid && !a.isLinkLocalUnicast).map
        fun a => (withoutZone a.unmap, ttl) := by
  induction addrs with
  | nil => rfl
  | cons a addrs ih =>
    rw [List.map_cons, List.filterMap_cons, accepted_addressRecord hhost, List.filter_cons]
    by_cases ha : (a.isValid && !a.isLinkLocalUnicast) = true
    · rw [if_pos ha, if_pos ha, List.map_cons, ← ih]
      rfl
    · rw [if_neg ha, if_neg ha]
      exact ih

end Sender

section Law

/-- An announcement of a host of one label is read back: the host, the addresses that are not
link-local without their zones, each at its first occurrence, and the lifetime. -/
theorem announcement_parsed (pack : Msg → Option (List UInt8)) (unpack : List UInt8 → Option Msg)
    (hinverse : ∀ m b, pack m = some b → unpack b = some m) (host : Str) (addrs : List Addr)
    (ttl : UInt32) (cacheFlush : Bool) (m : Msg) (b : List UInt8)
    (hbuild : buildAnnouncement (normalizeHost host) addrs ttl cacheFlush = .ok m)
    (hpack : pack m = some b) (hne : bareHost host ≠ []) (hdot : '.' ∉ bareHost host)
    (hservice : ¬ ['_'] <+: bareHost host)
    (hsome : ∃ a ∈ addrs, a.isValid = true ∧ a.isLinkLocalUnicast = false) :
    parsePacket (unpack b) = [⟨bareHost host, announcedAddrs addrs, ttl⟩] ∧
      ∀ quote args, parseAddrs quote args = .ok addrs → announcedAddrs addrs =
        ((addrs.filter fun a => !a.isLinkLocalUnicast).map withoutZone).eraseDups := by
  refine ⟨?_, fun quote args => announcedAddrs_of_parseAddrs⟩
  have hcanon := canonHost_normalizeHost hne hdot hservice
  have hhost : canonHost (normalizeHost host) ≠ [] := hcanon ▸ hne
  obtain ⟨cls, hresponse, hextra, hanswer⟩ := buildAnnouncement_ok hbuild
  have hone : ∀ r ∈ addrs.map (addressRecord (normalizeHost host) ttl cls), ∀ p,
      accepted r = some p → p.1 = bareHost host := by
    intro r hr p hp
    obtain ⟨a, ha, rfl⟩ := List.mem_map.mp hr
    rw [accepted_addressRecord hhost, hcanon] at hp
    split_ifs at hp
    cases hp
    rfl
  rw [hinverse m b hpack, parsePacket_of_answer hresponse hextra hanswer, foldl_announce_one hone,
    offered_eq hhost]
  obtain ⟨a, ha, hvalid, hlocal⟩ := hsome
  have hoffered : (addrs.filter fun a => a.isValid && !a.isLinkLocalUnicast).map
      (fun a => (withoutZone a.unmap, ttl)) ≠ [] :=
    List.ne_nil_of_mem
      (List.mem_map_of_mem (List.mem_filter.mpr ⟨ha, by rw [hvalid, hlocal]; rfl⟩))
  rw [if_neg hoffered, gather_eq hoffered (List.forall_mem_map.mpr fun _ _ => rfl), List.map_map]
  rfl

/-- The message that announces a host with two addresses, one of them twice and with a zone. -/
def nasMessage : Msg where
  response := true
  authoritative := true
  answer := [.v6 0xfd000000000000000000000000000001 [], .v4 0x0a000005,
    .v6 0xfd000000000000000000000000000001 []].map fun a =>
      some (addressRecord "nas.local.".toList 120 0x8001 a)

theorem announcement_parsed_nas :
    buildAnnouncement (normalizeHost " NAS.local".toList)
        [.v6 0xfd000000000000000000000000000001 "eth0".toList, .v4 0x0a000005,
          .v6 0xfd000000000000000000000000000001 []] 120 true = .ok nasMessage ∧
      parsePacket (some nasMessage) =
        [⟨"nas".toList, [.v6 0xfd000000000000000000000000000001 [], .v4 0x0a000005], 120⟩] := by
  have hbuild : buildAnnouncement (normalizeHost " NAS.local".toList)
      [.v6 0xfd000000000000000000000000000001 "eth0".toList, .v4 0x0a000005,
        .v6 0xfd000000000000000000000000000001 []] 120 true = .ok nasMessage := by decide
  have hbytes : ∀ m b, (if m = nasMessage then some [0] else none : Option (List UInt8)) = some b →
      (if b = [0] then some nasMessage else none) = some m := by
    intro m b h
    split_ifs at h with hm
    cases h
    rw [hm, if_pos rfl]
  refine ⟨hbuild, ?_⟩
  exact (announcement_parsed (fun m => if m = nasMessage then some [0] else none)
    (fun b => if b = [0] then some nasMessage else none) hbytes " NAS.local".toList _ 120 true
    nasMessage [0] hbuild (if_pos rfl) (by decide) (by decide) (by decide)
    ⟨.v4 0x0a000005, by decide, by decide, by decide⟩).1

/-- Names of several labels and service names are announced and not read, and a zone is lost. -/
theorem announcement_not_parsed :
    (buildAnnouncement (normalizeHost "a.b".toList) [.v4 0x0a000005] 120 true).map
        (fun m => parsePacket (some m)) = .ok [] ∧
      (buildAnnouncement (normalizeHost "_nas".toList) [.v4 0x0a000005] 120 true).map
        (fun m => parsePacket (some m)) = .ok [] ∧
      (buildAnnouncement (normalizeHost "nas".toList)
          [.v6 0xfd000000000000000000000000000001 "eth0".toList] 120 true).map
        (fun m => parsePacket (some m)) =
          .ok [⟨"nas".toList, [.v6 0xfd000000000000000000000000000001 []], 120⟩] := by
  decide

end Law

end SplitDNS.Notify
