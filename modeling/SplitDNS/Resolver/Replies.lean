import SplitDNS.Resolver.Resolve

/-! # Response codes

Which response codes the parts of the pipeline give. Records and negative
answers are added to a reply without touching what it holds; only the zones and
the local plane deny a name.
-/

namespace SplitDNS.Resolver

open Go Dns Model

variable {newRR : NewRR} {snap : Snapshot} {view : MDNSView} {resp req m : Msg} {q : RRType}
  {name : Str} {z : Zone}

@[simp] theorem rcode_appendMatching (recs : List Model.RR) :
    (appendMatching newRR resp recs name q).rcode = resp.rcode := rfl

@[simp] theorem rcode_appendSets (rrsets : RRsets) (skip : RRType → Bool) :
    (appendSets newRR resp rrsets name skip).rcode = resp.rcode := by
  unfold appendSets
  induction rrsets.entries generalizing resp with
  | nil => rfl
  | cons p l ih =>
    rw [List.foldl_cons, ih]
    split_ifs <;> rfl

@[simp] theorem rcode_setNegativeSOA (soa : Model.RR) (apex : Str) (rcode : Rcode) :
    (setNegativeSOA newRR resp soa apex rcode).rcode = rcode := by
  unfold setNegativeSOA
  split_ifs
  · rfl
  · dsimp only
    split <;> rfl

@[simp] theorem answer_setNegativeSOA (soa : Model.RR) (apex : Str) (rcode : Rcode) :
    (setNegativeSOA newRR resp soa apex rcode).answer = resp.answer := by
  unfold setNegativeSOA
  split_ifs
  · rfl
  · dsimp only
    split <;> rfl

theorem rcode_vhostNoData {zone : Option Zone} (h : resp.rcode = .success) :
    (vhostNoData newRR resp zone).rcode = .success := by
  rcases zone with _ | z
  · exact h
  · exact rcode_setNegativeSOA _ _ _

theorem rcode_vhostReply {owner : Str} {zone : Option Zone} :
    (vhostReply newRR snap req name owner q zone).rcode = .success := by
  unfold vhostReply
  dsimp only
  split_ifs <;> simp [rcode_vhostNoData, reply, setReply]

theorem rcode_mdnsZoneReply {mrecs : List Model.RR} :
    (mdnsZoneReply newRR z req name q mrecs).rcode = .success := by
  unfold mdnsZoneReply
  dsimp only
  split_ifs <;> simp [reply, setReply]

theorem rcode_resolverArpa : (resolverArpa snap req name q).rcode = .success := by
  unfold resolverArpa
  dsimp only
  split
  · rfl
  · split_ifs <;> rfl

theorem rcode_answerReverse (h : (answerReverse newRR snap view req name q).msg = some m) :
    m.rcode = .success := by
  unfold answerReverse at h
  split at h
  · cases h
  · dsimp only at h
    split_ifs at h
    all_goals
      cases h
      first
        | rfl
        | exact rcode_setNegativeSOA _ _ _

end SplitDNS.Resolver
