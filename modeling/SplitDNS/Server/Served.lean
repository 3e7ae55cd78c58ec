import SplitDNS.Dns.Labels
import SplitDNS.Server.Origin

/-! # What the forward path serves

Three promises about the messages that are written: no private address for a
name outside the allowed suffixes, the records the upstream would give now, and
the identifier and question of the request. For each it is said which requests
and responses make it hold along every run.
-/

namespace SplitDNS.Server

open Go Go.Netip Go.Strings Dns Anscache

variable {trunc : Truncate} {r : Request} {reply : Reply} {m : Msg} {rr : RR} {k : Key}
  {reqs : Msg → Prop} {exch : Msg → Response → Prop}

section Written

def Reply.message : Reply → Option Msg
  | live m => some m
  | fresh m => some m
  | stale m => some m
  | failed => none

theorem written_of_message (h : reply.message = some m) :
    reply.written trunc r = serveForwarded trunc r m := by
  cases reply <;> cases h <;> rfl

theorem respond_eq (trunc : Truncate) (r : Request) (m : Msg) : ∃ size extra,
    respond trunc r m =
      if r.tcp then { m with extra } else trunc.run size { m with extra } := by
  unfold respond
  rcases isEdns0 r.msg with _ | opt
  · exact ⟨512, _, rfl⟩
  · exact ⟨_, _, rfl⟩

theorem answer_respond : (respond trunc r m).answer <+: m.answer := by
  obtain ⟨size, extra, h⟩ := respond_eq trunc r m
  rw [h]
  split_ifs
  · exact List.prefix_refl _
  · exact trunc.cuts_answer size _

theorem answer_respond_tcp (htcp : r.tcp = true) : (respond trunc r m).answer = m.answer := by
  obtain ⟨size, extra, h⟩ := respond_eq trunc r m
  rw [h, if_pos htcp]

theorem id_respond : (respond trunc r m).id = m.id := by
  obtain ⟨size, extra, h⟩ := respond_eq trunc r m
  rw [h]
  split_ifs
  · rfl
  · exact trunc.id_eq size _

theorem question_respond : (respond trunc r m).question = m.question := by
  obtain ⟨size, extra, h⟩ := respond_eq trunc r m
  rw [h]
  split_ifs
  · rfl
  · exact trunc.question_eq size _

theorem keyFor_eq_some {req : Msg} (h : keyFor req = some k) :
    ∃ q, req.question = [q] ∧ q.qtype ≠ typeANY ∧
      k = ⟨toLower q.name, q.qtype, q.qclass, (isEdns0 req).any Record.doBit⟩ := by
  unfold keyFor at h
  rcases hq : req.question with _ | ⟨q, _ | ⟨q', qs⟩⟩ <;> rw [hq] at h <;> dsimp only at h
  · cases h
  · split_ifs at h with hc
    cases h
    simp only [Bool.or_eq_true, decide_eq_true_eq, not_or] at hc
    exact ⟨q, rfl, hc.1, rfl⟩
  · cases h

end Written

section Rebinding

/-- The record gives an address that may not come from outside. -/
def GivesBlocked (rr : RR) : Prop :=
  ∃ hdr ip, (rr = some ⟨hdr, .a ip⟩ ∨ rr = some ⟨hdr, .aaaa ip⟩) ∧
    Netmatch.isForwardBlocked ip = true

theorem any_netipFrom (ip : Addr) :
    (netipFrom ip).any Netmatch.isForwardBlocked = Netmatch.isForwardBlocked ip := by
  unfold netipFrom
  split_ifs with hvalid
  · rw [Option.any_some, Netmatch.isForwardBlocked, Addr.unmap_unmap]
    rfl
  · cases ip
    · rfl
    · exact absurd rfl hvalid
    · exact absurd rfl hvalid

theorem blocked_iff : blocked rr = true ↔ GivesBlocked rr := by
  unfold blocked GivesBlocked
  rcases rr with _ | ⟨hdr, data⟩
  · simp
  · cases data <;> simp [any_netipFrom]

/-- The requested name is at or below one of the allowed suffixes. -/
def Covered (r : Request) : Prop :=
  ∃ q ∈ r.msg.question.head?, ∃ sfx ∈ r.allowSuffix, AtOrBelow (toLower q.name) (toLower sfx)

theorem underAllow_iff {name : Str} {allow : List Str} :
    underAllow name allow = true ↔ ∃ sfx ∈ allow, AtOrBelow name (toLower sfx) := by
  simp [underAllow, AtOrBelow, hasSuffix]

/-- The records of a section that the filter lets through. -/
def unblocked (rrs : List RR) : List RR := rrs.filter fun rr => !blocked rr

/-- A request for a name that is not covered gets no blocked address, and the other records of the
message in their order, over TCP all of them. -/
def Screened (trunc : Truncate) (r : Request) (reply : Reply) : Prop :=
  ¬ Covered r → (∀ rr ∈ (reply.written trunc r).answer, ¬ GivesBlocked rr) ∧
    ∀ m ∈ reply.message, (reply.written trunc r).answer <+: unblocked m.answer ∧
      (r.tcp = true → (reply.written trunc r).answer = unblocked m.answer)

/-- A message with a blocked address is about a name that the requested name is at or below. -/
def AboutRequest (req m : Msg) : Prop :=
  (∃ rr ∈ m.answer, GivesBlocked rr) → ∀ q' ∈ m.question.head?,
    ∃ q ∈ req.question.head?, AtOrBelow (toLower q.name) (toLower q'.name)

theorem answer_applyRebindFilter (hr : ¬ Covered r) (h : AboutRequest r.msg m) :
    (applyRebindFilter { m with id := r.msg.id } r.allowSuffix).answer = unblocked m.answer := by
  unfold applyRebindFilter
  by_cases hallow : m.question.head?.any fun q => underAllow (toLower q.name) r.allowSuffix
  · rw [if_pos hallow]
    obtain ⟨q', hq', hu⟩ := (Option.any_eq_true _ _).mp hallow
    obtain ⟨sfx, hsfx, hbelow⟩ := underAllow_iff.mp hu
    refine (List.filter_eq_self.mpr fun rr hrr => ?_).symm
    by_contra hb
    obtain ⟨q, hq, hname⟩ := h ⟨rr, hrr, blocked_iff.mp (by simpa using hb)⟩ q' hq'
    exact hr ⟨q, hq, sfx, hsfx, hname.trans hbelow⟩
  · rw [if_neg hallow]
    rfl

theorem screened_of_aboutRequest (h : ∀ m ∈ reply.message, AboutRequest r.msg m) :
    Screened trunc r reply := by
  intro hr
  rcases hm : reply.message with _ | m
  · have hfailed : reply = .failed := by
      cases reply
      case failed => rfl
      all_goals cases hm
    subst hfailed
    have hnil : (Reply.written trunc r .failed).answer = [] :=
      List.prefix_nil.mp answer_respond
    simp [hnil]
  · have hanswer := answer_applyRebindFilter hr (h m hm)
    have hpre : (serveForwarded trunc r m).answer <+: unblocked m.answer := hanswer ▸ answer_respond
    rw [written_of_message hm]
    refine ⟨fun rr hrr hb => ?_, ?_⟩
    · have := (List.mem_filter.mp (hpre.subset hrr)).2
      rw [blocked_iff.mpr hb] at this
      cases this
    · rintro _ ⟨⟩
      exact ⟨hpre, fun htcp => (answer_respond_tcp htcp).trans hanswer⟩

theorem givesBlocked_mapTTL {f : UInt32 → UInt32}
    (h : ∃ rr ∈ (mapTTL f m).answer, GivesBlocked rr) :
    ∃ rr ∈ m.answer, GivesBlocked rr := by
  obtain ⟨_, hrr, hdr, ip, hip, hb⟩ := h
  obtain ⟨rr, hmem, rfl⟩ := List.mem_map.mp hrr
  rcases rr with _ | ⟨hdr, data⟩
  · simp at hip
  · simp only [Option.map_some, Option.some.injEq, Record.mk.injEq] at hip
    refine ⟨_, hmem, hdr, ip, ?_, hb⟩
    rcases hip with ⟨-, rfl⟩ | ⟨-, rfl⟩
    · exact Or.inl rfl
    · exact Or.inr rfl

/-- A message with blocked addresses is served to nobody who did not ask for a name below its
own. -/
theorem aboutRequest_of_genuine
    (h : ∀ req m, reqs req → exch req (.ok (some m)) → cacheableRcode m.rcode = true →
      AboutRequest req m)
    (hr : reqs r.msg) (hg : Genuine reqs exch r.msg reply) :
    ∀ m ∈ reply.message, AboutRequest r.msg m := by
  have hcache : ∀ m, FromCache reqs exch r.msg m → AboutRequest r.msg m := by
    rintro _ ⟨k, _, f, hk, ⟨req, resp, hreq, hkey, hexch, hcode, rfl⟩, rfl⟩ hb q' hq'
    obtain ⟨q, hq, -, rfl⟩ := keyFor_eq_some hk
    obtain ⟨q₀, hq₀, -, hname⟩ := keyFor_eq_some hkey
    obtain ⟨_, hhead, hbelow⟩ := h req resp hreq hexch hcode (givesBlocked_mapTTL hb) q' hq'
    rw [hq₀] at hhead
    cases hhead
    refine ⟨q, by rw [hq]; rfl, ?_⟩
    rw [(Key.mk.inj hname).1]
    exact hbelow
  rintro m hm
  cases reply <;> cases hm
  · exact h _ _ hr hg.1 hg.2
  · exact hcache _ hg
  · exact hcache _ hg

/-- The forward path keeps private addresses from the names that are not covered along every run,
exactly if no upstream answers a request with such addresses for a name that the requested one is
not at or below. -/
theorem forwarded_screened_iff (trunc : Truncate) (cfg : Anscache.Config) (reqs : Msg → Prop)
    (exch : Msg → Response → Prop) :
    (∀ es, Runs.Along Forwarding.step (.start cfg) (fun _ s e => Permitted reqs exch s e) es →
      Runs.Along Forwarding.step (.start cfg)
        (fun _ s e => Forwarding.Serves (Screened trunc) s e) es) ↔
    ∀ req m, reqs req → exch req (.ok (some m)) → cacheableRcode m.rcode = true →
      AboutRequest req m := by
  constructor
  · intro H req m hreq hexch hcode ⟨rr, hrr, hb⟩ q' hq'
    by_contra hnot
    -- A snapshot that covers the name in the response, but not the requested one.
    let r : Request := { msg := req, tcp := true, allowSuffix := [q'.name] }
    have hr : ¬ Covered r := by
      rintro ⟨q, hq, sfx, hsfx, hbelow⟩
      obtain rfl := List.mem_singleton.mp hsfx
      exact hnot ⟨q, hq, hbelow⟩
    have hlive : Screened trunc r (.live m) := Forwarding.served_live H hreq hexch hcode
    have hallow : (applyRebindFilter { m with id := req.id } [q'.name]).answer = m.answer := by
      unfold applyRebindFilter
      rw [if_pos]
      exact (Option.any_eq_true _ _).mpr ⟨q', hq', underAllow_iff.mpr ⟨_, by simp, Or.inl rfl⟩⟩
    refine (hlive hr).1 rr ?_ hb
    rw [Reply.written, serveForwarded, answer_respond_tcp (show r.tcp = true from rfl), hallow]
    exact hrr
  · intro h es hes pre e post s heq hrun r reply hreply
    obtain ⟨hr, hg⟩ := Forwarding.along_genuine cfg hes pre e post s heq hrun r reply hreply
    exact screened_of_aboutRequest (aboutRequest_of_genuine h hr hg)

/-- A response about another name: the suffix it names is covered, the requested name is not. -/
theorem forwarded_private_address : ∃ r m s,
    Runs.run Forwarding.step (.start {}) [.request 0 r 0, .response 0 (.ok (some m))] = some s ∧
      s.reply (.finish 0 0) = some (r, .live m) ∧ ¬ Covered r ∧
      ∃ rr ∈ (Reply.written default r (.live m)).answer, GivesBlocked rr := by
  refine ⟨{ msg := { id := 7, question := [⟨"evil.test.".toList, typeA, classINET⟩] }
            allowSuffix := ["corp.test.".toList] },
    { question := [⟨"corp.test.".toList, typeA, classINET⟩]
      answer := [some ⟨⟨"evil.test.".toList, typeA, classINET, 60⟩, .a (.v4 0x0a000001)⟩] },
    _, rfl, rfl, ?_, _, List.mem_cons_self, _, _, Or.inl rfl, rfl⟩
  rintro ⟨_, ⟨⟩, sfx, hsfx, hbelow⟩
  obtain rfl := List.mem_singleton.mp hsfx
  revert hbelow
  decide

end Rebinding

def answerTo (q : Question) : Msg :=
  { response := true, question := [q],
    answer := [some ⟨⟨q.name, q.qtype, q.qclass, 300⟩, .text []⟩] }

theorem cacheable_answerTo (cfg : Anscache.Config) {q : Question} (hq : q.qtype ≠ typeANY) :
    (cacheable cfg (answerTo q)).isSome := by
  simp [cacheable, answerTo, hq, answersType]

section Refinement

structure Query where
  name : Str
  qtype : RRType
  qclass : UInt16
  doBit : Bool
  checkingDisabled : Bool
  deriving DecidableEq, Repr

def queryOf (req : Msg) (q : Question) : Query :=
  ⟨toLower q.name, q.qtype, q.qclass, (isEdns0 req).any Record.doBit, req.checkingDisabled⟩

/-- An upstream that always answers, with a fixed function of the query. -/
def Answers (F : Query → Msg) (req : Msg) (resp : Response) : Prop :=
  ∀ q, req.question = [q] → resp = .ok (some (F (queryOf req q)))

/-- The records of a message, lifetimes and the pseudo-record aside. -/
def records (m : Msg) : List RR × List RR × List RR :=
  let m := mapTTL (fun _ => 0) (stripOPT m)
  (m.answer, m.ns, m.extra)

/-- A message from the cache has the response code and the records that the upstream would give
for the request. -/
def Refines (F : Query → Msg) (r : Request) (reply : Reply) : Prop :=
  ∀ m, reply = .fresh m ∨ reply = .stale m → ∀ q, r.msg.question = [q] →
    m.rcode = (F (queryOf r.msg q)).rcode ∧ records m = records (F (queryOf r.msg q))

theorem records_mapTTL_kept (f : UInt32 → UInt32) (m : Msg) :
    records (mapTTL f (Cache.kept m)) = records m := by
  have hstrip : stripOPT (Cache.kept m) = Cache.kept m := by
    simp [Cache.kept, stripOPT]
  simp only [records, stripOPT_mapTTL, mapTTL_mapTTL, hstrip]
  rfl

theorem fromCache_of_genuine (hg : Genuine reqs exch r.msg reply)
    (h : reply = .fresh m ∨ reply = .stale m) : FromCache reqs exch r.msg m := by
  rcases h with rfl | rfl
  · exact hg
  · exact hg

/-- The cached path refines the uncached one along every run, against every upstream that answers
by the query, exactly if requests with the same key also agree on checking. -/
theorem cached_refines_iff (cfg : Anscache.Config) (reqs : Msg → Prop) :
    (∀ F es, Runs.Along Forwarding.step (.start cfg)
        (fun _ s e => Permitted reqs (Answers F) s e) es →
      Runs.Along Forwarding.step (.start cfg) (fun _ s e => Forwarding.Serves (Refines F) s e) es) ↔
    ∀ req req' k, reqs req → reqs req' → keyFor req = some k → keyFor req' = some k →
      req.checkingDisabled = req'.checkingDisabled := by
  constructor
  · intro H req req' k hreq hreq' hk hk'
    by_contra hcd
    obtain ⟨q, hq, hany, -⟩ := keyFor_eq_some hk
    obtain ⟨q', hq', -, -⟩ := keyFor_eq_some hk'
    -- An upstream that has the name for the one request and not for the other.
    let F : Query → Msg := fun x =>
      if x.checkingDisabled = req.checkingDisabled then answerTo q else { rcode := .nameError }
    have hF : F (queryOf req q) = answerTo q := if_pos rfl
    have hF' : F (queryOf req' q') = { rcode := .nameError } := if_neg (Ne.symm hcd)
    have hexch : Answers F req (.ok (some (answerTo q))) := by
      intro q₀ hq₀
      obtain rfl : q = q₀ := by simpa [hq] using hq₀
      rw [hF]
    have hfresh := @Forwarding.served_fresh reqs (Answers F) { msg := req } cfg { msg := req' }
      (answerTo q) k _ (H F) hreq hreq' hexch rfl hk hk' (cacheable_answerTo _ hany)
    have hcode := (hfresh _ (Or.inl rfl) q' hq').1
    rw [hF'] at hcode
    cases hcode
  · intro h F es hes pre e post s heq hrun r reply hreply m hm q hq
    obtain ⟨hr, hg⟩ := Forwarding.along_genuine cfg hes pre e post s heq hrun r reply hreply
    obtain ⟨k, _, f, hk, ⟨req, resp, hreq, hkey, hexch, -, rfl⟩, rfl⟩ := fromCache_of_genuine hg hm
    obtain ⟨q₀, hq₀, -, rfl⟩ := keyFor_eq_some hkey
    obtain ⟨q₁, hq₁, -, hkey'⟩ := keyFor_eq_some hk
    obtain rfl : q = q₁ := by simpa [hq] using hq₁
    obtain ⟨hname, htype, hclass, hdo⟩ := Key.mk.inj hkey'
    have hquery : queryOf req q₀ = queryOf r.msg q := by
      simp only [queryOf, hname, htype, hclass, hdo, h req r.msg _ hreq hr hkey hk]
    have hresp : resp = F (queryOf r.msg q) := by
      rw [← hquery]
      exact Option.some.inj (Except.ok.inj (hexch q₀ hq₀))
    rw [← hresp]
    exact ⟨rfl, records_mapTTL_kept f resp⟩

/-- An upstream that validates fails on a forged name, unless it is told not to check. A client that
wants the check gets the unchecked answer of another one from the cache. -/
theorem unchecked_answer_served : ∃ (F : Query → Msg) (r : Request) (r' : Request),
    ∃ q m s, r.msg.question = [q] ∧ r'.msg.question = [q] ∧
      Runs.run Forwarding.step (.start {})
        [.request 0 r 0, .response 0 (.ok (some (F (queryOf r.msg q)))), .finish 0 0] = some s ∧
      s.reply (.request 0 r' 0) = some (r', .fresh m) ∧
      m.rcode ≠ (F (queryOf r'.msg q)).rcode := by
  let q : Question := ⟨"forged.test.".toList, typeA, classINET⟩
  let F : Query → Msg := fun x =>
    if x.checkingDisabled then answerTo q else { rcode := .serverFailure }
  let r : Request := { msg := { checkingDisabled := true, question := [q] } }
  let r' : Request := { msg := { question := [q] } }
  obtain ⟨s, hrun, hreply⟩ := @Forwarding.reply_exchange r {} r' (answerTo q) _ rfl rfl rfl
    (cacheable_answerTo _ (by decide))
  exact ⟨F, r, r', q, _, s, rfl, rfl, hrun, hreply, by decide⟩

end Refinement

section Echo

/-- The message is for the request: it has its identifier and its question. -/
def Matches (trunc : Truncate) (r : Request) (reply : Reply) : Prop :=
  (reply.written trunc r).id = r.msg.id ∧ (reply.written trunc r).question = r.msg.question

def Single (req : Msg) : Prop := ∃ q, req.question = [q]

/-- An upstream that echoes the question, if it answers. -/
def Echoes (req : Msg) (resp : Response) : Prop :=
  ∀ m, resp = .ok (some m) → m.question = req.question

theorem question_applyRebindFilter (m : Msg) (allow : List Str) :
    (applyRebindFilter m allow).id = m.id ∧
      (applyRebindFilter m allow).question = m.question := by
  unfold applyRebindFilter
  split_ifs
  · exact ⟨rfl, rfl⟩
  · exact ⟨rfl, rfl⟩

theorem question_serveForwarded :
    (serveForwarded trunc r m).id = r.msg.id ∧
      (serveForwarded trunc r m).question = m.question := by
  obtain ⟨hid, hq⟩ := question_applyRebindFilter { m with id := r.msg.id } r.allowSuffix
  exact ⟨id_respond.trans hid, question_respond.trans hq⟩

theorem matches_failed (h : Single r.msg) : Matches trunc r .failed := by
  obtain ⟨q, hq⟩ := h
  refine ⟨id_respond, question_respond.trans ?_⟩
  rw [setRcode, setReply, hq]
  rfl

theorem matches_of_message (hm : reply.message = some m) :
    Matches trunc r reply ↔ m.question = r.msg.question := by
  unfold Matches
  rw [written_of_message hm, question_serveForwarded.1, question_serveForwarded.2]
  simp

/-- Every message is for its request along every run, exactly if requests with the same key have
the same question, letter case included. -/
theorem forwarded_matches_iff (trunc : Truncate) (cfg : Anscache.Config) (reqs : Msg → Prop) :
    (∀ es, Runs.Along Forwarding.step (.start cfg)
        (fun _ s e => Permitted (fun req => reqs req ∧ Single req) Echoes s e) es →
      Runs.Along Forwarding.step (.start cfg)
        (fun _ s e => Forwarding.Serves (Matches trunc) s e) es) ↔
    ∀ req req' k, reqs req → reqs req' → keyFor req = some k → keyFor req' = some k →
      req.question = req'.question := by
  constructor
  · intro H req req' k hreq hreq' hk hk'
    obtain ⟨q, hq, hany, -⟩ := keyFor_eq_some hk
    obtain ⟨q', hq', -, -⟩ := keyFor_eq_some hk'
    have hexch : Echoes req (.ok (some (answerTo q))) := by
      rintro _ ⟨⟩
      exact hq.symm
    have hfresh := @Forwarding.served_fresh _ Echoes { msg := req } cfg { msg := req' }
      (answerTo q) k _ H ⟨hreq, q, hq⟩ ⟨hreq', q', hq'⟩ hexch rfl hk hk' (cacheable_answerTo _ hany)
    exact hq.trans ((matches_of_message rfl).mp hfresh)
  · intro h es hes pre e post s heq hrun r reply hreply
    obtain ⟨hr, hg⟩ := Forwarding.along_genuine cfg hes pre e post s heq hrun r reply hreply
    have hcache : ∀ m, FromCache (fun req => reqs req ∧ Single req) Echoes r.msg m →
        m.question = r.msg.question := by
      rintro _ ⟨k, _, f, hk, ⟨req, resp, hreq, hkey, hexch, -, rfl⟩, rfl⟩
      exact (hexch resp rfl).trans (h req r.msg k hreq.1 hr.1 hkey hk)
    cases reply with
    | live m => exact (matches_of_message rfl).mpr (hg.1 m rfl)
    | fresh m => exact (matches_of_message rfl).mpr (hcache m hg)
    | stale m => exact (matches_of_message rfl).mpr (hcache m hg)
    | failed => exact matches_failed hr.2

/-- A name that is asked in capitals and then in small letters is answered in capitals. -/
theorem other_letter_case_served : ∃ r r' m m' s,
    m.question = r.msg.question ∧
      Runs.run Forwarding.step (.start {})
        [.request 0 r 0, .response 0 (.ok (some m)), .finish 0 0] = some s ∧
      s.reply (.request 0 r' 0) = some (r', .fresh m') ∧
      (Reply.written default r' (.fresh m')).question ≠ r'.msg.question := by
  let q : Question := ⟨['A', '.'], typeA, classINET⟩
  let r : Request := { msg := { question := [q] } }
  let r' : Request := { msg := { question := [{ q with name := ['a', '.'] }] } }
  have hk : keyFor r.msg = some ⟨['a', '.'], typeA, classINET, false⟩ := by decide
  have hk' : keyFor r'.msg = some ⟨['a', '.'], typeA, classINET, false⟩ := by decide
  obtain ⟨s, hrun, hreply⟩ := @Forwarding.reply_exchange r {} r' (answerTo q) _ rfl hk hk'
    (cacheable_answerTo _ (by decide))
  exact ⟨r, r', answerTo q, _, s, rfl, hrun, hreply, by decide⟩

end Echo

end SplitDNS.Server
