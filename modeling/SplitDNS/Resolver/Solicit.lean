import SplitDNS.Resolver.Existence
import SplitDNS.Resolver.Recover

/-! # Solicited hosts

A local miss tells the server which host to ask the network for. The label that
is solicited is the one that the next lookup reads, so an address that arrives
under it ends the denial.
-/

namespace SplitDNS.Resolver

open Go Go.Netip Go.Strings Dns Model

variable {newRR : NewRR} {snap : Snapshot} {view : MDNSView} {req resp : Msg} {q : RRType}
  {name label host : Str} {r : Model.RR}

def AddressQuery (q : RRType) : Prop := q = typeA ∨ q = typeAAAA ∨ q = typeANY

instance : DecidablePred AddressQuery := fun _ => inferInstanceAs (Decidable (_ ∨ _ ∨ _))

/-- A served address of some family is announced under the host. -/
def Announces (view : MDNSView) (host : Str) : Prop :=
  ∃ r ∈ forwardOf view host, servable typeA false r = true ∨ servable typeAAAA false r = true

theorem localServeAddrs_ne_nil (hr : r ∈ forwardOf view host) (hs : servable q false r = true) :
    localServeAddrs view host q false false ≠ [] := by
  have hmem : r ∈ (forwardOf view host).filter (servable q false) := List.mem_filter.mpr ⟨hr, hs⟩
  intro hnil
  simp only [localServeAddrs, Bool.false_eq_true, if_false] at hnil
  split_ifs at hnil with htrusted
  · exact htrusted hnil
  · rw [not_not, List.filter_eq_nil_iff] at htrusted
    rw [List.filter_eq_nil_iff] at hnil
    exact hnil r hmem (by simpa using htrusted r hmem)

theorem Announces.not_hostAbsent (h : Announces view host)
    (hres : restrictedLabel snap host = false) : ¬ HostAbsent snap view false (some host) := by
  intro habs
  obtain ⟨hv4, hv6⟩ := habs host rfl
  rw [localHostAddrs, hres] at hv4 hv6
  obtain ⟨r, hr, hs | hs⟩ := h
  · exact localServeAddrs_ne_nil hr hs hv4
  · exact localServeAddrs_ne_nil hr hs hv6

/-- A miss of the local plane: an address query for a host that may be solicited. -/
structure Missed (snap : Snapshot) (view : MDNSView) (name : Str) (q : RRType) (host : Str) :
    Prop where
  type : AddressQuery q
  recovered : (recoverLocalHost snap name).host = some host
  unrestricted : restrictedLabel snap host = false
  absent : HostAbsent snap view false (some host)

theorem missed_of_answerLocalHost
    (h : (answerLocalHost newRR snap view resp name q).localMiss = true) :
    Missed snap view name q (answerLocalHost newRR snap view resp name q).localLabel := by
  unfold answerLocalHost at h ⊢
  rcases hrec : (recoverLocalHost snap name).host with _ | host
  · rw [hrec] at h
    cases h
  · rw [hrec] at h
    dsimp only at h ⊢
    split_ifs at h ⊢ with habs hsol
    · have hsol' : restrictedLabel snap host = false ∧ AddressQuery q := by
        simpa [localHostAddrs, AddressQuery, or_assoc] using h
      exact ⟨hsol'.2, hrec, hsol'.1, fun h hh => by
        obtain rfl := Option.some.inj hh
        simpa using habs⟩
    · exact absurd h hsol

theorem hostLabel_of_recoverLocalHost (h : (recoverLocalHost snap name).host = some host) :
    HostLabel snap host := by
  rw [recoverLocalHost] at h
  dsimp only at h
  split_ifs at h with hstripped hlabel
  · obtain rfl := Option.some.inj h
    exact isHostLabel_iff.mp hlabel

theorem missed_of_answerLocal
    (h : (answerLocal newRR snap view req name label q).localMiss = true) :
    (snap.serveDNSSD = true → parseDNSSD label = none) ∧
      Missed snap view name q (answerLocal newRR snap view req name label q).localLabel := by
  unfold answerLocal at h ⊢
  dsimp only at h ⊢
  split at h
  · cases h
  next hnone =>
    refine ⟨fun hsd => ?_, ?_⟩
    · rwa [if_pos hsd, answerDNSSD_eq_none_iff] at hnone
    · exact missed_of_answerLocalHost h

/-- The query has one question, and its name is below a local suffix and has no other meaning. -/
structure LocalQuery (snap : Snapshot) (req : Msg) (qu : Question) (label : Str) : Prop where
  question : req.question = [qu]
  not_special : ¬ Special snap (queryName qu)
  not_arpa : isArpa (queryName qu) = false
  label : localLabel snap (queryName qu) = some label

theorem LocalQuery.resolve_eq {qu : Question} (h : LocalQuery snap req qu label)
    (view : MDNSView) : resolve newRR snap view req =
      answerLocal newRR snap view req (queryName qu) label qu.qtype := by
  rw [resolve_of_not_special h.question h.not_special, if_neg (by simp [h.not_arpa]), h.label]

theorem localQuery_of_localMiss (h : (resolve newRR snap view req).localMiss = true) :
    ∃ qu label, LocalQuery snap req qu label := by
  match hq : req.question with
  | [] | _ :: _ :: _ =>
    rw [resolve, hq] at h
    cases h
  | [qu] =>
    by_cases hs : Special snap (queryName qu)
    · rw [resolve_of_special hq hs] at h
      cases h
    rw [resolve_of_not_special hq hs] at h
    by_cases harpa : isArpa (queryName qu) = true
    · rw [if_pos harpa, answerReverse] at h
      split at h
      · cases h
      · dsimp only at h
        split_ifs at h
    · rw [if_neg harpa] at h
      rcases hl : localLabel snap (queryName qu) with _ | label
      · rw [hl] at h
        dsimp only at h
        split_ifs at h
      · exact ⟨qu, label, hq, hs, by simpa using harpa, hl⟩

/-- A miss is a denied address query, and it names the host to solicit: in every view that has an
address of this host the query is answered. -/
theorem resolve_localMiss (newRR : NewRR) (snap : Snapshot) (view : MDNSView) (req : Msg)
    (host : Str) (hmiss : (resolve newRR snap view req).localMiss = true)
    (hhost : (resolve newRR snap view req).localLabel = host) :
    ∃ qu m, req.question = [qu] ∧ AddressQuery qu.qtype ∧
      (resolve newRR snap view req).msg = some m ∧ m.rcode = .nameError ∧
      host ≠ [] ∧ '.' ∉ host ∧ restrictedLabel snap host = false ∧
      ∀ view', Announces view' host →
        ∃ m', (resolve newRR snap view' req).msg = some m' ∧ m'.rcode ≠ .nameError := by
  obtain ⟨qu, label, hlocal⟩ := localQuery_of_localMiss hmiss
  rw [hlocal.resolve_eq] at hmiss hhost
  obtain ⟨hsd, hm⟩ := missed_of_answerLocal hmiss
  rw [hhost] at hm
  have hlabel := hostLabel_of_recoverLocalHost hm.recovered
  simp only [hlocal.resolve_eq]
  obtain ⟨m, hmsg, hd⟩ := @answerLocal_denies newRR snap view req qu.qtype (queryName qu) label
  refine ⟨qu, m, hlocal.question, hm.type, hmsg, hd.iff.mpr ⟨hsd, hm.recovered ▸ hm.absent⟩,
    hlabel.ne_nil, hlabel.dot, hm.unrestricted, fun view' hann => ?_⟩
  obtain ⟨m', hmsg', hd'⟩ := @answerLocal_denies newRR snap view' req qu.qtype (queryName qu) label
  refine ⟨m', hmsg', fun hcode => ?_⟩
  exact hann.not_hostAbsent hm.unrestricted (hm.recovered ▸ (hd'.iff.mp hcode).2)

/-- A host that is asked for before it is known, and known when it is asked for again. -/
theorem resolve_localMiss_nas :
    ∃ m', (resolve readLine lanSite
      { forward := Map.ofList [("nas".toList, [{ type := typeA, content := "10.0.0.5".toList }])] }
      (ask "nas.lan.".toList typeA)).msg = some m' ∧ m'.rcode ≠ .nameError := by
  obtain ⟨-, -, -, -, -, -, -, -, -, hnext⟩ := resolve_localMiss readLine lanSite {}
    (ask "nas.lan.".toList typeA) "nas".toList (by decide) (by decide)
  exact hnext _ ⟨_, List.mem_singleton_self _, Or.inl (by decide)⟩

end SplitDNS.Resolver
