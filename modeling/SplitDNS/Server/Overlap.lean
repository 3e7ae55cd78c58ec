import SplitDNS.Server.Origin

/-! # Requests that overlap

A failure is cached on the word of a lookup that was made before the request
went upstream. If another request for the key stores an answer in between, the
failure replaces it. As long as answers are stored only while no such request is
at work, a failure never replaces an answer that could still be served.
-/

namespace SplitDNS

open Go Dns

namespace Anscache.Cache

variable {c : Cache} {k : Key} {m : Msg} {now : Time}

/-- The entry under the key is an unexpired answer, or a stale one that may still be served. -/
def Servable (c : Cache) (k : Key) (now : Time) : Prop :=
  ∃ e kind m, c.entries.lookup k = some e ∧ e.body = .answer kind m ∧
    (now - e.insertedAt < e.ttl ∨
      c.cfg.serveStale = true ∧ now - e.insertedAt < e.ttl + c.cfg.staleMaxAge)

theorem not_holds_of_miss (h : (c.lookup k now).2 = .miss) : ¬ (c.lookup k now).1.Holds k m := by
  rintro ⟨x, kind, hx, -⟩
  unfold lookup at h hx
  rcases hl : c.entries.lookup k with _ | e
  · rw [hl] at hx
    dsimp only at hx
    rw [hl] at hx
    cases hx
  · rw [hl] at h hx
    dsimp only at h hx
    rcases hb : e.body with ⟨kind, msg⟩ | _
    · rw [hb] at h hx
      dsimp only at h hx
      split_ifs at h hx
      exact (Map.lookup_erase_eq_some hx).1 rfl
    · rw [hb] at h hx
      dsimp only at h hx
      split_ifs at h hx
      exact (Map.lookup_erase_eq_some hx).1 rfl

end Anscache.Cache

namespace Server

open Anscache

variable {cache : Option Cache} {k : Key} {m : Msg} {now : Time}

/-- A request that caches a failure under the key if it does not get an answer. -/
def Exposed (k : Key) : Request × Pending × Option Response → Prop
  | (_, p, x) => p.key = some k ∧ p.stale = none ∧ ∀ resp ∈ x, answerOf resp = none

theorem beforeUpstream_exposed {r : Request} {p : Pending} {c : Cache}
    (hc : (beforeUpstream cache r.msg now).1 = some c)
    (hp : (beforeUpstream cache r.msg now).2 = .inr p) (hw : Exposed k (r, p, none)) :
    ¬ c.Holds k m := by
  obtain ⟨hkey, hstale, -⟩ := hw
  unfold beforeUpstream at hc hp
  rcases cache with _ | c₀
  · cases hc
  · rcases hk : keyFor r.msg with _ | key
    · simp only [hk, Sum.inr.injEq] at hp
      subst hp
      cases hkey
    · simp only [hk, Option.some.injEq] at hc hp
      rcases hl : (c₀.lookup key now).2 with _ | m' | m' | _
      · simp only [hl, Sum.inr.injEq] at hp
        subst hp
        cases hkey
        exact hc ▸ Cache.not_holds_of_miss hl
      · simp [hl] at hp
      · simp only [hl, Sum.inr.injEq] at hp
        subst hp
        cases hstale
      · simp [hl] at hp

namespace Forwarding

variable {s s' : Forwarding} {e : Event}

/-- An answer is stored only while no other request is exposed under the key. -/
def NoOverlap (s : Forwarding) : Event → Prop
  | .finish id _ => ∀ r p resp m k c, s.inflight.lookup id = some (r, p, some resp) →
      answerOf resp = some m → p.key = some k → s.cache = some c → (cacheable c.cfg m).isSome →
      ∀ id' w, id' ≠ id → s.inflight.lookup id' = some w → ¬ Exposed k w
  | _ => True

/-- If the step caches a failure, it does not replace an answer that could still be served. -/
def KeepsAnswer (s : Forwarding) : Event → Prop
  | .finish id now => ∀ r p resp k c, s.inflight.lookup id = some (r, p, some resp) →
      answerOf resp = none → p.stale = none → p.key = some k → s.cache = some c →
      ¬ c.Servable k now
  | _ => True

/-- While a request is exposed, there is no answer under its key. -/
def Guarded (s : Forwarding) : Prop :=
  ∀ id w k c m, s.inflight.lookup id = some w → Exposed k w → s.cache = some c → ¬ c.Holds k m

theorem step_guarded (hs : Guarded s) (he : NoOverlap s e) (h : s.step e = some s') :
    Guarded s' := by
  intro id' w k c' m hl hw hc' hheld
  cases e with
  | request id r now =>
    obtain ⟨hid, hcache, hin⟩ := request_eq_some h
    rw [hcache] at hc'
    obtain ⟨c, hc, hbefore⟩ := beforeUpstream_holds hc' hheld
    rcases hin with ⟨reply, -, hin⟩ | ⟨p, hp, hin⟩
    · rw [hin] at hl
      exact hs id' w k c m hl hw hc hbefore
    · rw [hin, Map.lookup_insert_eq_ite] at hl
      split_ifs at hl
      · cases hl
        exact beforeUpstream_exposed hc' hp hw hheld
      · exact hs id' w k c m hl hw hc hbefore
  | response id resp =>
    obtain ⟨r, p, hl₀, hcache, hin⟩ := response_eq_some h
    rw [hcache] at hc'
    rw [hin, Map.lookup_insert_eq_ite] at hl
    split_ifs at hl
    · cases hl
      exact hs id (r, p, none) k c' m hl₀ ⟨hw.1, hw.2.1, by simp⟩ hc' hheld
    · exact hs id' w k c' m hl hw hc' hheld
  | finish id now =>
    obtain ⟨r, p, resp, hl₀, hcache, hin⟩ := finish_eq_some h
    rw [hcache] at hc'
    rw [hin] at hl
    obtain ⟨hne, hl⟩ := Map.lookup_erase_eq_some hl
    obtain ⟨c, hc, hbefore | ⟨hkey, m', ha, hcb, -⟩⟩ := afterUpstream_holds hc' hheld
    · exact hs id' w k c m hl hw hc hbefore
    · exact he r p resp m' k c hl₀ ha hkey hc hcb id' w hne hl hw

theorem keepsAnswer_of_guarded (hs : Guarded s) : KeepsAnswer s e := by
  cases e with
  | request id r now => trivial
  | response id resp => trivial
  | finish id now =>
    rintro r p resp k c hl ha hstale hkey hc ⟨x, kind, m, hx, hb, -⟩
    refine hs id _ k c m hl ⟨hkey, hstale, ?_⟩ hc ⟨x, kind, hx, hb⟩
    rintro _ ⟨⟩
    exact ha

/-- Whatever requests run at the same time: if answers are stored without an overlap, a failure
never replaces an answer that could still be served. -/
theorem along_keepsAnswer (cfg : Anscache.Config) {es : List Event}
    (h : Runs.Along step (start cfg) (fun _ s e => NoOverlap s e) es) :
    Runs.Along step (start cfg) (fun _ s e => KeepsAnswer s e) es := by
  have hstart : Guarded (start cfg) := by
    intro id w k c m hl
    simp [start] at hl
  exact @Runs.along_of_inv _ _ step (start cfg) es (fun _ s => Guarded s) _ _ hstart
    (fun _ _ _ _ hs he h => step_guarded hs he h) (fun _ _ _ hs _ => keepsAnswer_of_guarded hs) h

/-- Two requests miss, the first one stores its answer, and the second one fails. -/
theorem failure_replaces_answer : ∃ r m s,
    Runs.run step (start { maxEntries := 2 }) [.request 0 r 0, .request 1 r 0,
      .response 0 (.ok (some m)), .finish 0 0, .response 1 (.error [])] = some s ∧
      ¬ KeepsAnswer s (.finish 1 0) := by
  let q : Question := ⟨['a', '.'], typeA, classINET⟩
  refine ⟨{ msg := { question := [q] } },
    { question := [q], answer := [some ⟨⟨q.name, typeA, classINET, 60⟩, .a (.v4 1)⟩] },
    _, rfl, fun h => ?_⟩
  exact h _ _ _ _ _ rfl rfl rfl rfl rfl ⟨_, _, _, rfl, rfl, Or.inl (by decide)⟩

/-- Two requests for different names, of which one is answered and the other fails. -/
theorem keepsAnswer_of_other_name : ∃ r r' m,
    Runs.Along step (start { maxEntries := 2 }) (fun _ s e => KeepsAnswer s e) [.request 0 r 0,
      .request 1 r' 0, .response 0 (.ok (some m)), .finish 0 0, .response 1 (.error []),
      .finish 1 0] := by
  let q : Question := ⟨['a', '.'], typeA, classINET⟩
  refine ⟨{ msg := { question := [q] } },
    { msg := { question := [{ q with name := ['b', '.'] }] } },
    { question := [q], answer := [some ⟨⟨q.name, typeA, classINET, 60⟩, .a (.v4 1)⟩] },
    along_keepsAnswer _ ?_⟩
  refine Runs.along_cons.mpr ⟨trivial, ?_⟩
  rintro _ ⟨⟩
  refine Runs.along_cons.mpr ⟨trivial, ?_⟩
  rintro _ ⟨⟩
  refine Runs.along_cons.mpr ⟨trivial, ?_⟩
  rintro _ ⟨⟩
  refine Runs.along_cons.mpr ⟨?_, ?_⟩
  · rintro r p resp m k c ⟨⟩ - ⟨⟩ - - id' w hne hl ⟨hkey, -⟩
    rw [AList.lookup_insert_ne hne, Map.lookup_insert_eq_ite] at hl
    split_ifs at hl
    · cases hl
      revert hkey
      decide
    · rw [AList.lookup_insert_ne hne] at hl
      cases hl
  rintro _ ⟨⟩
  refine Runs.along_cons.mpr ⟨trivial, ?_⟩
  rintro _ ⟨⟩
  refine Runs.along_cons.mpr ⟨?_, fun _ _ => Runs.along_nil⟩
  rintro r p _ m k c ⟨⟩ ⟨⟩

end Forwarding

end Server

end SplitDNS
