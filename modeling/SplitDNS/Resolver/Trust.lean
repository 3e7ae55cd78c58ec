import SplitDNS.Dns.Presentation
import SplitDNS.Resolver.Names
import SplitDNS.Resolver.Resolve

/-! # Untrusted announcements and restricted names

Two views that differ only in what unauthenticated hosts announced for
restricted names lead to the same addresses on the local plane, whatever the
spelling of the name. Under a zone name the same holds wherever the overlay is
shut off for the name.
-/

namespace SplitDNS.Resolver

open Go Go.Netip Go.Strings Dns Model

/-- The views differ only in the untrusted records of restricted hosts. -/
structure SameTrusted (snap : Snapshot) (v v' : MDNSView) : Prop where
  trusted : ∀ h, (forwardOf v h).filter (·.trusted) = (forwardOf v' h).filter (·.trusted)
  unrestricted : ∀ h, restrictedLabel snap h = false → forwardOf v h = forwardOf v' h
  reverse : ∀ n, v.reverse.lookup n = v'.reverse.lookup n
  services : ∀ h, v.services.lookup h = v'.services.lookup h

def SingleLabels (v : MDNSView) : Prop := ∀ h ∈ v.forward, h ≠ [] ∧ '.' ∉ h

/-- The address records and the response code of an outcome that is a reply. -/
def Outcome.addressAnswer (o : Outcome) : Option (List Dns.RR × Rcode) :=
  o.msg.map fun m => (addresses m.answer, m.rcode)

/-- What a client and the on-demand query see of an outcome. -/
def Outcome.observed (o : Outcome) : Option (List Dns.RR × Rcode) × Bool × Str :=
  (o.addressAnswer, o.localMiss, o.localLabel)

variable {newRR : NewRR} {snap : Snapshot} {v v' : MDNSView}

theorem forwardOf_eq_nil {h : Str} (hv : SingleLabels v) (hh : h = [] ∨ '.' ∈ h) :
    forwardOf v h = [] := by
  have : h ∉ v.forward := by
    intro hm
    obtain ⟨hne, hdot⟩ := hv h hm
    rcases hh with rfl | hd
    · exact hne rfl
    · exact hdot hd
  rw [forwardOf, AList.lookup_eq_none.mpr this]
  rfl

theorem localServeAddrs_congr (hs : SameTrusted snap v v') (host : Str) (t : RRType) (b : Bool) :
    localServeAddrs v host t (restrictedLabel snap host) b =
      localServeAddrs v' host t (restrictedLabel snap host) b := by
  have htr : ((forwardOf v host).filter (servable t b)).filter (·.trusted) =
      ((forwardOf v' host).filter (servable t b)).filter (·.trusted) := by
    rw [List.filter_comm, hs.trusted, List.filter_comm]
  rcases hr : restrictedLabel snap host with _ | _
  · rw [localServeAddrs, localServeAddrs, hs.unrestricted host hr]
  · simp only [localServeAddrs, htr, if_true]

theorem localHostAddrs_congr (hs : SameTrusted snap v v') (host : Str) (b : Bool) :
    localHostAddrs snap v host b = localHostAddrs snap v' host b := by
  simp only [localHostAddrs, localServeAddrs_congr hs]

section Discovery

theorem addresses_sdAppend {resp : Msg} {qtype t : RRType} {data : RData} {name : Str}
    {ttl : UInt32} (ht : t ≠ typeA) (ht' : t ≠ typeAAAA) :
    addresses (sdAppend resp qtype t data name ttl).answer = addresses resp.answer := by
  unfold sdAppend
  split_ifs
  · simp [addresses, ht, ht']
  · rfl

theorem rcode_sdAppend (resp : Msg) (qtype t : RRType) (data : RData) (name : Str) (ttl : UInt32) :
    (sdAppend resp qtype t data name ttl).rcode = resp.rcode := by
  unfold sdAppend
  split_ifs <;> rfl

theorem addresses_appendService (resp : Msg) (qtype : RRType) (name target : Str) (ttl : UInt32)
    (s : MDNSService) :
    addresses (appendService resp qtype name target ttl s).answer = addresses resp.answer ∧
      (appendService resp qtype name target ttl s).rcode = resp.rcode := by
  unfold appendService
  dsimp only
  split_ifs
  · rw [addresses_sdAppend (by decide) (by decide), addresses_sdAppend (by decide) (by decide),
      rcode_sdAppend, rcode_sdAppend]
    exact ⟨rfl, rfl⟩
  · rw [addresses_sdAppend (by decide) (by decide), rcode_sdAppend]
    exact ⟨rfl, rfl⟩

theorem foldl_answer_invariant {α : Type*} {f : Msg → α → Msg}
    (hf : ∀ m x, addresses (f m x).answer = addresses m.answer ∧ (f m x).rcode = m.rcode)
    (l : List α) (m : Msg) :
    addresses (l.foldl f m).answer = addresses m.answer ∧ (l.foldl f m).rcode = m.rcode := by
  induction l generalizing m with
  | nil => exact ⟨rfl, rfl⟩
  | cons x l ih =>
    obtain ⟨h₁, h₂⟩ := ih (f m x)
    exact ⟨h₁.trans (hf m x).1, h₂.trans (hf m x).2⟩

theorem addresses_answerDNSSD {resp m : Msg} {name label : Str} {qtype : RRType}
    (h : answerDNSSD v resp name label qtype = some m) :
    addresses m.answer = addresses resp.answer ∧ m.rcode = resp.rcode := by
  unfold answerDNSSD at h
  dsimp only at h
  split at h
  · cases h
  · cases h
    exact foldl_answer_invariant (fun m s => addresses_appendService ..) _ _
  · cases h
    exact foldl_answer_invariant (fun m t =>
      ⟨addresses_sdAppend (by decide) (by decide), rcode_sdAppend ..⟩) _ _

theorem isSome_answerDNSSD (v v' : MDNSView) (resp : Msg) (name label : Str) (qtype : RRType) :
    (answerDNSSD v resp name label qtype).isSome =
      (answerDNSSD v' resp name label qtype).isSome := by
  unfold answerDNSSD
  dsimp only
  split <;> rfl

end Discovery

theorem answerLocalHost_congr (hs : SameTrusted snap v v') (resp : Msg) (name : Str)
    (qtype : RRType) :
    answerLocalHost newRR snap v resp name qtype =
      answerLocalHost newRR snap v' resp name qtype := by
  unfold answerLocalHost
  simp only [localHostAddrs_congr hs]

theorem answerLocal_congr (hs : SameTrusted snap v v') (req : Msg) (name label : Str)
    (qtype : RRType) :
    (answerLocal newRR snap v req name label qtype).observed =
      (answerLocal newRR snap v' req name label qtype).observed := by
  unfold answerLocal
  dsimp only
  rcases hd : snap.serveDNSSD with _ | _
  · exact congrArg _ (answerLocalHost_congr hs ..)
  · have hiso := isSome_answerDNSSD v v' { reply req with authoritative := true } name label qtype
    rcases h :
        answerDNSSD v { reply req with authoritative := true } name label qtype with _ | m <;>
      rcases h' : answerDNSSD v' { reply req with authoritative := true } name label qtype
        with _ | m' <;> simp only [h, h'] at hiso
    · simpa [h, h'] using congrArg _ (answerLocalHost_congr hs ..)
    · cases hiso
    · cases hiso
    · obtain ⟨ha, hr⟩ := addresses_answerDNSSD h
      obtain ⟨ha', hr'⟩ := addresses_answerDNSSD h'
      simp [Outcome.observed, Outcome.addressAnswer, ha, ha', hr, hr']

theorem localRecoveredZoneReply_congr (hs : SameTrusted snap v v') (req : Msg) (name host : Str)
    (qtype : RRType) (zone : Zone) :
    localRecoveredZoneReply newRR snap v req name host qtype zone =
      localRecoveredZoneReply newRR snap v' req name host qtype zone := by
  unfold localRecoveredZoneReply
  simp only [localHostAddrs_congr hs]

/-- Wherever the overlay may serve a host under a zone name, the views agree on the host. -/
def OverlayAgrees (snap : Snapshot) (v v' : MDNSView) (name : Str) : Prop :=
  ∀ zone, snap.zones.lookup (longestZoneSuffix name snap.zones) = some (some zone) →
    isVHostCandidate snap (longestZoneSuffix name snap.zones)
      (relativeOwner name (longestZoneSuffix name snap.zones)) = false →
    zone.records.lookup (relativeOwner name (longestZoneSuffix name snap.zones)) = none →
    zone.tunnelAddr.lookup (relativeOwner name (longestZoneSuffix name snap.zones)) = none →
    name ∉ snap.ddnsEligible →
      forwardOf v (relativeOwner name (longestZoneSuffix name snap.zones)) =
        forwardOf v' (relativeOwner name (longestZoneSuffix name snap.zones))

theorem answerZoneOrVHost_congr (hs : SameTrusted snap v v') (req : Msg) {name : Str}
    (qtype : RRType) (ho : OverlayAgrees snap v v' name) :
    answerZoneOrVHost newRR snap v req name (longestZoneSuffix name snap.zones) qtype =
      answerZoneOrVHost newRR snap v' req name (longestZoneSuffix name snap.zones) qtype := by
  unfold OverlayAgrees at ho
  unfold answerZoneOrVHost
  dsimp only
  generalize longestZoneSuffix name snap.zones = apex at ho ⊢
  generalize relativeOwner name apex = owner at ho ⊢
  split_ifs with hvh
  · rfl
  · rcases hz : snap.zones.lookup apex with _ | _ | zone
    · rfl
    · rfl
    · simp only [Option.join_some, answerZone, localRecoveredZoneReply_congr hs]
      by_cases hgate :
          ((zone.records.lookup owner).isNone && (zone.tunnelAddr.lookup owner).isNone &&
          decide (name ∉ snap.ddnsEligible)) = true
      · have hsame := hgate
        simp only [Bool.and_eq_true, Option.isNone_iff_eq_none, decide_eq_true_eq] at hsame
        rw [ho zone hz (by simpa using hvh) hsame.1.1 hsame.1.2 hsame.2]
      · simp only [Bool.not_eq_true] at hgate
        simp only [hgate, Bool.false_and]
        rfl

theorem resolve_observed_congr (hs : SameTrusted snap v v') {req : Msg} {q : Question}
    (hq : req.question = [q])
    (ho : localLabel snap (queryName q) = none → OverlayAgrees snap v v' (queryName q)) :
    (resolve newRR snap v req).observed = (resolve newRR snap v' req).observed := by
  simp only [resolve, hq]
  split_ifs
  · rfl
  · split
    · rfl
    · unfold resolveName
      rcases answerStatic newRR snap req (queryName q) q.qtype with _ | out
      · rcases hl : localLabel snap (queryName q) with _ | lbl
        · simp only [answerZoneOrVHost_congr hs req q.qtype (ho hl), answerReverse, hs.reverse]
        · dsimp only
          split_ifs
          · simp only [answerReverse, hs.reverse]
          · exact answerLocal_congr hs ..
      · rfl

theorem dot_suffix_queryName (q : Question) : ['.'] <:+ queryName q :=
  (dot_suffix_fqdn q.name).map Char.toLower

theorem longestZoneSuffix_label {label apex : Str} (hl : '.' ∉ label) (ha : apex ∈ snap.zones) :
    longestZoneSuffix (label ++ '.' :: apex) snap.zones = apex ∨
      longestZoneSuffix (label ++ '.' :: apex) snap.zones = label ++ '.' :: apex := by
  have hle := length_le_longestSuffix (AList.mem_keys.mp ha)
    (Or.inr (List.suffix_append label ('.' :: apex)))
  rcases longestSuffix_cases (label ++ '.' :: apex) snap.zones.keys with h | ⟨-, h⟩
  · rw [h, List.length_nil, Nat.le_zero, List.length_eq_zero_iff] at hle
    exact Or.inl (h.trans hle.symm)
  · rcases atOrBelow_label hl h with h | h
    · exact Or.inr h
    · exact Or.inl (h.eq_of_length_le hle)

/-- A query for one label under a mirrored apex has the same addresses and code in both views,
if a restricted label is redirected, published in the zone, or dynamic under that very name. -/
theorem resolve_label_sameTrusted {label apex : Str} {req : Msg} {q : Question}
    (hs : SameTrusted snap v v') (hv : SingleLabels v) (hv' : SingleLabels v')
    (hl : label ≠ [] ∧ '.' ∉ label) (ha : apex ∈ snap.zones) (hq : req.question = [q])
    (hn : queryName q = label ++ '.' :: apex)
    (hgate : restrictedLabel snap label = true →
      isVHostCandidate snap apex label = true ∨
      (∀ zone, snap.zones.lookup apex = some (some zone) →
        label ∈ zone.records ∨ label ∈ zone.tunnelAddr) ∨
      label ++ '.' :: apex ∈ snap.ddnsEligible) :
    (resolve newRR snap v req).addressAnswer = (resolve newRR snap v' req).addressAnswer := by
  refine congrArg Prod.fst (resolve_observed_congr hs hq fun _ => ?_)
  rw [hn]
  intro zone hzone hvh hrec htun helig
  rcases longestZoneSuffix_label hl.2 ha with hz | hz
  · rw [hz] at hzone hvh hrec htun ⊢
    rw [relativeOwner_append] at hvh hrec htun ⊢
    rcases hr : restrictedLabel snap label with _ | _
    · exact hs.unrestricted label hr
    · rcases hgate hr with hg | hg | hg
      · exact absurd (hg.symm.trans hvh) (by decide)
      · rcases hg zone hzone with hg | hg
        · exact absurd hg (AList.lookup_eq_none.mp hrec)
        · exact absurd hg (AList.lookup_eq_none.mp htun)
      · exact absurd hg helig
  · rw [hz, relativeOwner_self, forwardOf_eq_nil hv (Or.inl rfl), forwardOf_eq_nil hv' (Or.inl rfl)]

/-- A query on the local plane, under a local suffix or in a search-list spelling under a zone,
is observed to be the same in both views. -/
theorem resolve_local_sameTrusted {req : Msg} {q : Question} (hs : SameTrusted snap v v')
    (hv : SingleLabels v) (hv' : SingleLabels v') (hq : req.question = [q])
    (hn : hasSuffix (queryName q) ".local.".toList = true ∨
      (snap.localDomain ≠ [] ∧
        hasSuffix (queryName q) ('.' :: snap.localDomain ++ ['.']) = true) ∨
      (∃ apex ∈ snap.zones, isSuffixLabel (queryName q) apex = true) ∧
        (recoverLocalHost snap (queryName q)).tainted = true) :
    (resolve newRR snap v req).observed = (resolve newRR snap v' req).observed := by
  refine resolve_observed_congr hs hq fun hl zone _ _ _ _ _ => ?_
  obtain ⟨hloc, hdom⟩ := localLabel_eq_none_iff.mp hl
  rcases hn with hn | ⟨hd, hn⟩ | ⟨-, ht⟩
  · exact absurd (of_decide_eq_true hn) hloc
  · exact absurd (of_decide_eq_true hn) (hdom hd)
  · have hdot := dot_mem_owner_of_tainted (dot_suffix_queryName q) hl ht
    rw [forwardOf_eq_nil hv (Or.inr hdot), forwardOf_eq_nil hv' (Or.inr hdot)]

section Spoof

def spoofedBlog : Model.RR :=
  { name := "blog.local.".toList, type := typeA, ttl := 120, cls := classINET,
    content := "10.0.0.66".toList }

def spoofedView : MDNSView := { forward := Map.ofList [("blog".toList, [spoofedBlog])] }

def blogSnapshot (excluded : Finset Str) : Snapshot :=
  { zones := Map.ofList [("example.com.".toList, some { apex := "example.com.".toList })]
    vhosts := {"blog".toList}
    vhostV4 := .v4 0xc0000202
    localDomain := "lan".toList
    excluded := excluded }

def queryA (name : Str) : Msg := { question := [⟨name, typeA, classINET⟩] }

theorem sameTrusted_spoofedView (excluded : Finset Str) :
    SameTrusted (blogSnapshot excluded) spoofedView {} := by
  have hother : ∀ h, h ≠ "blog".toList → forwardOf spoofedView h = [] := by
    intro h hne
    rw [forwardOf, AList.lookup_eq_none.mpr]
    · rfl
    · intro hm
      exact hne (List.mem_singleton.mp hm)
  refine ⟨fun h => ?_, fun h hr => ?_, fun _ => rfl, fun _ => rfl⟩
  · rcases eq_or_ne h "blog".toList with rfl | hne
    · rfl
    · rw [hother h hne]
      rfl
  · rcases eq_or_ne h "blog".toList with rfl | hne
    · simp [restrictedLabel, blogSnapshot] at hr
    · rw [hother h hne]
      rfl

theorem singleLabels_spoofedView : SingleLabels spoofedView ∧ SingleLabels {} := by
  refine ⟨fun h hm => ?_, fun h hm => absurd hm (AList.notMem_empty h)⟩
  obtain rfl : h = "blog".toList := List.mem_singleton.mp hm
  decide

/-- In a zone without the redirect a spoofed virtual host is served under its zone name. -/
theorem excluded_vhost_spoofed :
    SameTrusted (blogSnapshot {"example.com.".toList}) spoofedView {} ∧
    SingleLabels spoofedView ∧ SingleLabels {} ∧
    (resolve readLine (blogSnapshot {"example.com.".toList}) spoofedView
      (queryA "blog.example.com.".toList)).addressAnswer =
        some ([some ⟨⟨"blog.example.com.".toList, typeA, classINET, 120⟩, .a (.v4 0x0a000042)⟩],
          .success) ∧
    (resolve readLine (blogSnapshot {"example.com.".toList}) {}
      (queryA "blog.example.com.".toList)).addressAnswer = some ([], .nameError) :=
  ⟨sameTrusted_spoofedView _, singleLabels_spoofedView.1, singleLabels_spoofedView.2,
    by decide, by decide⟩

theorem redirected_vhost_not_spoofed :
    (resolve readLine (blogSnapshot ∅) spoofedView
      (queryA "blog.example.com.".toList)).addressAnswer =
    (resolve readLine (blogSnapshot ∅) {} (queryA "blog.example.com.".toList)).addressAnswer :=
  resolve_label_sameTrusted (sameTrusted_spoofedView ∅) singleLabels_spoofedView.1
    singleLabels_spoofedView.2 (show "blog".toList ≠ [] ∧ '.' ∉ "blog".toList by decide)
    (show "example.com.".toList ∈ (blogSnapshot ∅).zones by decide) rfl (by decide)
    fun _ => Or.inl (by decide)

theorem local_vhost_not_spoofed :
    (resolve readLine (blogSnapshot ∅) spoofedView (queryA "blog.lan.".toList)).observed =
    (resolve readLine (blogSnapshot ∅) {} (queryA "blog.lan.".toList)).observed :=
  resolve_local_sameTrusted (sameTrusted_spoofedView ∅) singleLabels_spoofedView.1
    singleLabels_spoofedView.2 rfl (Or.inr (Or.inl (by decide)))

end Spoof

end SplitDNS.Resolver
