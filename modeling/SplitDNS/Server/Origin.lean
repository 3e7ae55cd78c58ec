import SplitDNS.Server.Forward

/-! # Where a served message comes from

A live message is the response to the request itself. A message from the cache,
fresh or stale, is the response to some earlier request with the same key, with
other lifetimes. Along every run, what is known of the requests and of the
responses to them is therefore known of everything that is served.
-/

namespace SplitDNS

open Go Go.Strings Dns

namespace Anscache.Cache

variable {c : Cache} {k k' : Key} {e : Entry} {m : Msg} {now : Time}

theorem entry_of_moveToFront {e' : Entry} (he : c.entries.lookup k = some e')
    (hb : e.body = e'.body) {x : Entry} (h : (c.moveToFront k e).entries.lookup k' = some x) :
    ∃ y, c.entries.lookup k' = some y ∧ x.body = y.body := by
  rw [moveToFront, Map.lookup_insert_eq_ite] at h
  split_ifs at h with hk
  · cases h
    exact ⟨e', hk ▸ he, hb⟩
  · exact ⟨x, h, rfl⟩

theorem entry_of_lookup {x : Entry} (h : (c.lookup k now).1.entries.lookup k' = some x) :
    ∃ y, c.entries.lookup k' = some y ∧ x.body = y.body := by
  unfold lookup at h
  rcases hl : c.entries.lookup k with _ | e
  · rw [hl] at h
    exact ⟨x, h, rfl⟩
  · rw [hl] at h
    dsimp only at h
    rcases hb : e.body with ⟨kind, msg⟩ | _
    · rw [hb] at h
      dsimp only at h
      split_ifs at h
      · exact entry_of_moveToFront hl hb.symm h
      · exact entry_of_moveToFront hl rfl h
      · exact ⟨x, (Map.lookup_erase_eq_some h).2, rfl⟩
    · rw [hb] at h
      dsimp only at h
      split_ifs at h
      · exact entry_of_moveToFront hl hb.symm h
      · exact ⟨x, (Map.lookup_erase_eq_some h).2, rfl⟩

/-- The cache has the message as the answer under the key. -/
def Holds (c : Cache) (k : Key) (m : Msg) : Prop :=
  ∃ e kind, c.entries.lookup k = some e ∧ e.body = .answer kind m

theorem holds_of_lookup (h : (c.lookup k now).1.Holds k' m) : c.Holds k' m := by
  obtain ⟨x, kind, hx, hb⟩ := h
  obtain ⟨y, hy, hxy⟩ := entry_of_lookup hx
  exact ⟨y, kind, hy, hxy.symm.trans hb⟩

theorem holds_of_found (h : (c.lookup k now).2 = .fresh m ∨ (c.lookup k now).2 = .stale m) :
    ∃ m₀ f, c.Holds k m₀ ∧ m = mapTTL f m₀ := by
  unfold lookup at h
  rcases hl : c.entries.lookup k with _ | e
  · simp [hl] at h
  · rcases hb : e.body with ⟨kind, msg⟩ | _
    · refine ⟨msg, ?_⟩
      have hheld : c.Holds k msg := ⟨e, kind, hl, hb⟩
      simp only [hl, hb] at h
      split_ifs at h
      · simp only [Result.fresh.injEq, or_false] at h
        exact ⟨_, hheld, h.symm⟩
      · simp only [Result.stale.injEq, false_or] at h
        exact ⟨_, hheld, h.symm⟩
      · simp at h
    · simp only [hl, hb] at h
      split_ifs at h <;> simp at h

theorem entry_of_put {x : Entry} (h : (c.put k e).entries.lookup k' = some x) :
    (k' = k ∧ x = e) ∨ c.entries.lookup k' = some x := by
  have hins : (c.entries.insert k e).lookup k' = some x := Map.lookup_of_lookup_keepFirst h
  rw [Map.lookup_insert_eq_ite] at hins
  split_ifs at hins with hk
  · exact Or.inl ⟨hk, (Option.some.inj hins).symm⟩
  · exact Or.inr hins

theorem holds_of_store {resp : Msg} (h : (c.store k resp now).Holds k' m) :
    c.Holds k' m ∨ k = k' ∧ (cacheable c.cfg resp).isSome ∧ m = kept resp := by
  unfold store at h
  rcases hc : cacheable c.cfg resp with _ | ⟨ttl, kind⟩
  · rw [hc] at h
    exact Or.inl h
  · rw [hc] at h
    obtain ⟨x, kind', hx, hb⟩ := h
    rcases entry_of_put hx with ⟨hk, rfl⟩ | hx
    · simp only [Body.answer.injEq] at hb
      exact Or.inr ⟨hk.symm, rfl, hb.2.symm⟩
    · exact Or.inl ⟨x, kind', hx, hb⟩

theorem holds_of_storeFail (h : (c.storeFail k now).Holds k' m) : c.Holds k' m := by
  obtain ⟨x, kind, hx, hb⟩ := h
  rcases entry_of_put hx with ⟨-, rfl⟩ | hx
  · cases hb
  · exact ⟨x, kind, hx, hb⟩

end Anscache.Cache

namespace Server

open Anscache

variable (reqs : Msg → Prop) (exch : Msg → Response → Prop)

/-- What a run is given: which requests come in, and which responses they get. -/
def Permitted (s : Forwarding) : Event → Prop
  | .request _ r _ => reqs r.msg
  | .response id resp => ∀ r p x, s.inflight.lookup id = some (r, p, x) → exch r.msg resp
  | .finish _ _ => True

/-- The message is what is kept of an answer to a request with the key. -/
def Kept (k : Key) (m : Msg) : Prop :=
  ∃ req resp, reqs req ∧ keyFor req = some k ∧ exch req (.ok (some resp)) ∧
    cacheableRcode resp.rcode = true ∧ m = Cache.kept resp

/-- The message is one kept under the key of the request, with other lifetimes. -/
def FromCache (req m : Msg) : Prop :=
  ∃ k m₀ f, keyFor req = some k ∧ Kept reqs exch k m₀ ∧ m = mapTTL f m₀

def Genuine (req : Msg) : Reply → Prop
  | .live m => exch req (.ok (some m)) ∧ cacheableRcode m.rcode = true
  | .fresh m => FromCache reqs exch req m
  | .stale m => FromCache reqs exch req m
  | .failed => True

def Sound (cache : Option Cache) : Prop := ∀ c ∈ cache, ∀ k m, c.Holds k m → Kept reqs exch k m

/-- A request at work, with its stale message and its response. -/
structure Underway (r : Request) (p : Pending) (x : Option Response) : Prop where
  request : reqs r.msg
  key : ∀ k ∈ p.key, keyFor r.msg = some k
  stale : ∀ m ∈ p.stale, FromCache reqs exch r.msg m
  response : ∀ resp ∈ x, exch r.msg resp

structure Traced (s : Forwarding) : Prop where
  cache : Sound reqs exch s.cache
  inflight : ∀ id r p x, s.inflight.lookup id = some (r, p, x) → Underway reqs exch r p x

variable {reqs exch} {cache : Option Cache} {r : Request} {p : Pending} {resp : Response}
  {now : Time} {s s' : Forwarding} {reply : Reply}

theorem beforeUpstream_holds {req : Msg} {c' : Cache} {k : Key} {m : Msg}
    (hc : (beforeUpstream cache req now).1 = some c') (h : c'.Holds k m) :
    ∃ c, cache = some c ∧ c.Holds k m := by
  unfold beforeUpstream at hc
  rcases cache with _ | c
  · cases hc
  · refine ⟨c, rfl, ?_⟩
    rcases hk : keyFor req with _ | key
    · rw [hk] at hc
      cases hc
      exact h
    · rw [hk] at hc
      cases hc
      exact Cache.holds_of_lookup h

theorem beforeUpstream_sound {req : Msg} {cache' : Option Cache} (hc : Sound reqs exch cache)
    (h : cache' = (beforeUpstream cache req now).1) : Sound reqs exch cache' := by
  rintro c' hc' k m hm
  obtain ⟨c, hcache, hheld⟩ := beforeUpstream_holds (h ▸ hc') hm
  exact hc c hcache k m hheld

theorem beforeUpstream_reply (hc : Sound reqs exch cache)
    (h : (beforeUpstream cache r.msg now).2 = .inl reply) : Genuine reqs exch r.msg reply := by
  unfold beforeUpstream at h
  rcases cache with _ | c
  · simp at h
  · rcases hk : keyFor r.msg with _ | key
    · simp [hk] at h
    · rcases hl : (c.lookup key now).2 with _ | m | m | _
      · simp [hk, hl] at h
      · simp only [hk, hl, Sum.inl.injEq] at h
        subst h
        obtain ⟨m₀, f, hm₀, hm⟩ := Cache.holds_of_found (Or.inl hl)
        exact ⟨key, m₀, f, hk, hc c rfl key m₀ hm₀, hm⟩
      · simp [hk, hl] at h
      · simp only [hk, hl, Sum.inl.injEq] at h
        subst h
        trivial

theorem beforeUpstream_pending (hc : Sound reqs exch cache) (hr : reqs r.msg)
    (h : (beforeUpstream cache r.msg now).2 = .inr p) : Underway reqs exch r p none := by
  unfold beforeUpstream at h
  rcases cache with _ | c
  · simp only [Sum.inr.injEq] at h
    subst h
    exact ⟨hr, by simp, by simp, by simp⟩
  · rcases hk : keyFor r.msg with _ | key
    · simp only [hk, Sum.inr.injEq] at h
      subst h
      exact ⟨hr, by simp, by simp, by simp⟩
    · rcases hl : (c.lookup key now).2 with _ | m | m | _
      · simp only [hk, hl, Sum.inr.injEq] at h
        subst h
        exact ⟨hr, by simp [hk], by simp, by simp⟩
      · simp [hk, hl] at h
      · simp only [hk, hl, Sum.inr.injEq] at h
        subst h
        obtain ⟨m₀, f, hm₀, hm⟩ := Cache.holds_of_found (Or.inr hl)
        refine ⟨hr, by simp [hk], ?_, by simp⟩
        rintro _ ⟨⟩
        exact ⟨key, m₀, f, hk, hc c rfl key m₀ hm₀, hm⟩
      · simp [hk, hl] at h

theorem answerOf_eq_some {m : Msg} (h : answerOf resp = some m) :
    resp = .ok (some m) ∧ cacheableRcode m.rcode = true := by
  unfold answerOf at h
  rcases resp with _ | _ | m'
  · cases h
  · cases h
  · dsimp only at h
    split_ifs at h with hcode
    obtain rfl := Option.some.inj h
    exact ⟨rfl, hcode⟩

theorem withCache_eq_some {key : Option Key} {f : Cache → Key → Cache} {c' : Cache}
    (h : withCache cache key f = some c') :
    ∃ c, cache = some c ∧ (c' = c ∨ ∃ k, key = some k ∧ c' = f c k) := by
  obtain ⟨c, hc, rfl⟩ := Option.map_eq_some_iff.mp h
  rcases key with _ | k
  · exact ⟨c, hc, Or.inl rfl⟩
  · exact ⟨c, hc, Or.inr ⟨k, rfl, rfl⟩⟩

theorem afterUpstream_holds {c' : Cache} {k : Key} {m : Msg}
    (hc : (afterUpstream cache p resp now).1 = some c') (h : c'.Holds k m) :
    ∃ c, cache = some c ∧ (c.Holds k m ∨ p.key = some k ∧
      ∃ m', answerOf resp = some m' ∧ (cacheable c.cfg m').isSome ∧ m = Cache.kept m') := by
  unfold afterUpstream at hc
  rcases ha : answerOf resp with _ | m'
  · rcases hs : p.stale with _ | m'
    · rw [ha, hs] at hc
      obtain ⟨c, hcache, rfl | ⟨key, -, rfl⟩⟩ := withCache_eq_some hc
      · exact ⟨c', hcache, Or.inl h⟩
      · exact ⟨c, hcache, Or.inl (Cache.holds_of_storeFail h)⟩
    · rw [ha, hs] at hc
      obtain ⟨c, hcache, rfl | ⟨key, -, rfl⟩⟩ := withCache_eq_some hc
      · exact ⟨c', hcache, Or.inl h⟩
      · exact ⟨c, hcache, Or.inl h⟩
  · rw [ha] at hc
    obtain ⟨c, hcache, rfl | ⟨key, hkey, rfl⟩⟩ := withCache_eq_some hc
    · exact ⟨c', hcache, Or.inl h⟩
    · refine ⟨c, hcache, (Cache.holds_of_store h).imp_right ?_⟩
      rintro ⟨rfl, hcb, rfl⟩
      exact ⟨hkey, m', rfl, hcb, rfl⟩

theorem afterUpstream_sound (hc : Sound reqs exch cache)
    (hu : Underway reqs exch r p (some resp)) :
    Sound reqs exch (afterUpstream cache p resp now).1 := by
  intro c' hc' k m h
  obtain ⟨c, hcache, h | ⟨hkey, m', ha, -, rfl⟩⟩ := afterUpstream_holds hc' h
  · exact hc c hcache k m h
  · obtain ⟨rfl, hcode⟩ := answerOf_eq_some ha
    exact ⟨r.msg, m', hu.request, hu.key k hkey, hu.response _ rfl, hcode, rfl⟩

theorem afterUpstream_reply (hu : Underway reqs exch r p (some resp)) :
    Genuine reqs exch r.msg (afterUpstream cache p resp now).2 := by
  unfold afterUpstream
  rcases ha : answerOf resp with _ | m
  · rcases hs : p.stale with _ | m
    · trivial
    · exact hu.stale m hs
  · obtain ⟨rfl, hcode⟩ := answerOf_eq_some ha
    exact ⟨hu.response _ rfl, hcode⟩

namespace Forwarding

theorem request_eq_some {id : ℕ} (h : s.request id r now = some s') :
    id ∉ s.inflight ∧ s'.cache = (beforeUpstream s.cache r.msg now).1 ∧
      ((∃ reply, (beforeUpstream s.cache r.msg now).2 = .inl reply ∧ s'.inflight = s.inflight) ∨
        ∃ p, (beforeUpstream s.cache r.msg now).2 = .inr p ∧
          s'.inflight = s.inflight.insert id (r, p, none)) := by
  unfold request at h
  by_cases hid : id ∈ s.inflight
  · rw [if_pos hid] at h
    cases h
  · rw [if_neg hid] at h
    rcases hb : beforeUpstream s.cache r.msg now with ⟨cache, reply | p⟩
    · rw [hb] at h
      cases h
      exact ⟨hid, rfl, Or.inl ⟨reply, rfl, rfl⟩⟩
    · rw [hb] at h
      cases h
      exact ⟨hid, rfl, Or.inr ⟨p, rfl, rfl⟩⟩

theorem response_eq_some {id : ℕ} (h : s.response id resp = some s') :
    ∃ r p, s.inflight.lookup id = some (r, p, none) ∧ s'.cache = s.cache ∧
      s'.inflight = s.inflight.insert id (r, p, some resp) := by
  unfold response at h
  rcases hl : s.inflight.lookup id with _ | ⟨r, p, _ | x⟩
  · rw [hl] at h
    cases h
  · rw [hl] at h
    cases h
    exact ⟨r, p, rfl, rfl, rfl⟩
  · rw [hl] at h
    cases h

theorem finish_eq_some {id : ℕ} (h : s.finish id now = some s') :
    ∃ r p resp, s.inflight.lookup id = some (r, p, some resp) ∧
      s'.cache = (afterUpstream s.cache p resp now).1 ∧ s'.inflight = s.inflight.erase id := by
  unfold finish at h
  rcases hl : s.inflight.lookup id with _ | ⟨r, p, _ | resp⟩
  · rw [hl] at h
    cases h
  · rw [hl] at h
    cases h
  · rw [hl] at h
    cases h
    exact ⟨r, p, resp, rfl, rfl, rfl⟩

theorem reply_eq_some {e : Event} (h : s.reply e = some (r, reply)) :
    (∃ id now, e = .request id r now ∧ (beforeUpstream s.cache r.msg now).2 = .inl reply) ∨
      ∃ id now p resp, e = .finish id now ∧ s.inflight.lookup id = some (r, p, some resp) ∧
        (afterUpstream s.cache p resp now).2 = reply := by
  cases e with
  | request id r' now =>
    unfold Forwarding.reply at h
    dsimp only at h
    split_ifs at h
    obtain ⟨reply', hr, heq⟩ := Option.map_eq_some_iff.mp h
    cases heq
    refine Or.inl ⟨id, now, rfl, ?_⟩
    exact Sum.getLeft?_eq_some_iff.mp hr
  | response id resp => cases h
  | finish id now =>
    unfold Forwarding.reply at h
    dsimp only at h
    rcases hl : s.inflight.lookup id with _ | ⟨r', p, _ | resp⟩
    · rw [hl] at h
      cases h
    · rw [hl] at h
      cases h
    · rw [hl] at h
      cases h
      exact Or.inr ⟨id, now, p, resp, rfl, hl, rfl⟩

theorem step_traced {e : Event} (hs : Traced reqs exch s) (he : Permitted reqs exch s e)
    (h : s.step e = some s') : Traced reqs exch s' := by
  cases e with
  | request id r now =>
    obtain ⟨-, hcache, ⟨reply, -, hin⟩ | ⟨p, hp, hin⟩⟩ := request_eq_some h
    · refine ⟨beforeUpstream_sound hs.cache hcache, ?_⟩
      rw [hin]
      exact hs.inflight
    · refine ⟨beforeUpstream_sound hs.cache hcache, fun id' r' p' x hl => ?_⟩
      rw [hin, Map.lookup_insert_eq_ite] at hl
      split_ifs at hl
      · cases hl
        exact beforeUpstream_pending hs.cache he hp
      · exact hs.inflight id' r' p' x hl
  | response id resp =>
    obtain ⟨r, p, hl, hcache, hin⟩ := response_eq_some h
    refine ⟨hcache ▸ hs.cache, fun id' r' p' x hl' => ?_⟩
    rw [hin, Map.lookup_insert_eq_ite] at hl'
    split_ifs at hl'
    · cases hl'
      have hu := hs.inflight id r p none hl
      refine ⟨hu.request, hu.key, hu.stale, ?_⟩
      rintro _ ⟨⟩
      exact he r p none hl
    · exact hs.inflight id' r' p' x hl'
  | finish id now =>
    obtain ⟨r, p, resp, hl, hcache, hin⟩ := finish_eq_some h
    refine ⟨hcache ▸ afterUpstream_sound hs.cache (hs.inflight id r p _ hl),
      fun id' r' p' x hl' => ?_⟩
    rw [hin] at hl'
    exact hs.inflight id' r' p' x (Map.lookup_erase_eq_some hl').2

theorem reply_genuine {e : Event} (hs : Traced reqs exch s) (he : Permitted reqs exch s e)
    (h : s.reply e = some (r, reply)) : reqs r.msg ∧ Genuine reqs exch r.msg reply := by
  rcases reply_eq_some h with ⟨id, now, rfl, hr⟩ | ⟨id, now, p, resp, rfl, hl, rfl⟩
  · exact ⟨he, beforeUpstream_reply hs.cache hr⟩
  · have hu := hs.inflight id r p _ hl
    exact ⟨hu.request, afterUpstream_reply hu⟩

def Serves (P : Request → Reply → Prop) (s : Forwarding) (e : Event) : Prop :=
  ∀ r reply, s.reply e = some (r, reply) → P r reply

theorem traced_start (cfg : Anscache.Config) : Traced reqs exch (start cfg) := by
  refine ⟨?_, fun id r p x h => ?_⟩
  · rintro c ⟨⟩ k m ⟨e, kind, he, -⟩
    simp [Cache.new] at he
  · simp [start] at h

theorem along_genuine (cfg : Anscache.Config) {es : List Event}
    (h : Runs.Along step (start cfg) (fun _ s e => Permitted reqs exch s e) es) :
    Runs.Along step (start cfg)
      (fun _ s e => Serves (fun r reply => reqs r.msg ∧ Genuine reqs exch r.msg reply) s e) es :=
  @Runs.along_of_inv _ _ step (start cfg) es (fun _ s => Traced reqs exch s) _ _ (traced_start cfg)
    (fun _ _ _ _ hs he h => step_traced hs he h) (fun _ _ _ hs he _ _ h => reply_genuine hs he h) h

section Exchange

variable {cfg : Anscache.Config} {r' : Request} {m : Msg} {k : Key} {P : Request → Reply → Prop}

/-- One request and its response, and then a second request. -/
def exchange (r : Request) (resp : Response) (now : Time) (r' : Request) : List Event :=
  [.request 0 r now, .response 0 resp, .finish 0 now, .request 0 r' now]

theorem along_exchange (now : Time) (hr : reqs r.msg) (hresp : exch r.msg resp)
    (hr' : reqs r'.msg) :
    Runs.Along step (start cfg) (fun _ s e => Permitted reqs exch s e)
      (exchange r resp now r') := by
  refine Runs.along_cons.mpr ⟨hr, fun s₁ h₁ => Runs.along_cons.mpr ⟨?_, fun s₂ _ => ?_⟩⟩
  · intro r₀ p x hl
    obtain ⟨-, -, ⟨reply, -, hin⟩ | ⟨p, -, hin⟩⟩ := request_eq_some h₁
    · simp [hin, start] at hl
    · rw [hin, AList.lookup_insert] at hl
      cases hl
      exact hresp
  · exact Runs.along_cons.mpr ⟨trivial, fun s₃ _ =>
      Runs.along_cons.mpr ⟨hr', fun _ _ => Runs.along_nil⟩⟩

theorem beforeUpstream_start (cfg : Anscache.Config) (req : Msg) (now : Time) :
    ∃ c, beforeUpstream (start cfg).cache req now = (some c, .inr { key := keyFor req }) ∧
      c.cfg = cfg.resolved ∧ c.entries = ∅ := by
  unfold beforeUpstream start
  rcases keyFor req with _ | key
  · exact ⟨_, rfl, rfl, rfl⟩
  · exact ⟨_, rfl, rfl, rfl⟩

theorem beforeUpstream_fresh {req : Msg} {c : Cache} (hk : keyFor req = some k)
    (h : (c.lookup k now).2 = .fresh m) :
    (beforeUpstream (some c) req now).2 = .inl (.fresh m) := by
  unfold beforeUpstream
  rw [hk]
  dsimp only
  rw [h]

theorem run_exchange (cfg : Anscache.Config) (r : Request) (resp : Response) (now : Time) :
    ∃ c s, Runs.run step (start cfg) [.request 0 r now, .response 0 resp] = some s ∧
      s.cache = some c ∧ c.cfg = cfg.resolved ∧ c.entries = ∅ ∧
      s.inflight.lookup 0 = some (r, { key := keyFor r.msg }, some resp) := by
  obtain ⟨c, hb, hcfg, hnil⟩ := beforeUpstream_start cfg r.msg now
  let p : Pending := { key := keyFor r.msg }
  let s₁ : Forwarding := { cache := some c, inflight := AList.insert 0 (r, p, none) ∅ }
  have h₁ : step (start cfg) (.request 0 r now) = some s₁ := by
    rw [step, request, if_neg (show 0 ∉ (start cfg).inflight from AList.notMem_empty 0), hb]
    rfl
  let s₂ : Forwarding := { s₁ with inflight := s₁.inflight.insert 0 (r, p, some resp) }
  have h₂ : step s₁ (.response 0 resp) = some s₂ := by
    rw [step, response, show s₁.inflight.lookup 0 = some (r, p, none) from AList.lookup_insert _]
  exact ⟨c, s₂, by simp [Runs.run, h₁, h₂], rfl, hcfg, hnil, AList.lookup_insert _⟩

theorem finish_of_lookup {id : ℕ} (hl : s.inflight.lookup id = some (r, p, some resp)) :
    s.step (.finish id now) = some
        { cache := (afterUpstream s.cache p resp now).1, inflight := s.inflight.erase id } ∧
      s.reply (.finish id now) = some (r, (afterUpstream s.cache p resp now).2) := by
  constructor
  · rw [step, finish, hl]
  · rw [Forwarding.reply, hl]

theorem answerOf_ok (hcode : cacheableRcode m.rcode = true) : answerOf (.ok (some m)) = some m := by
  simp [answerOf, hcode]

theorem served_live
    (H : ∀ es, Runs.Along step (start cfg) (fun _ s e => Permitted reqs exch s e) es →
      Runs.Along step (start cfg) (fun _ s e => Serves P s e) es)
    (hr : reqs r.msg) (hexch : exch r.msg (.ok (some m))) (hcode : cacheableRcode m.rcode = true) :
    P r (.live m) := by
  obtain ⟨c, s, hrun, -, -, -, hl⟩ := run_exchange cfg r (.ok (some m)) 0
  refine H _ (along_exchange 0 hr hexch hr) _ _ _ s rfl hrun r _ ?_
  rw [(finish_of_lookup hl).2, afterUpstream, answerOf_ok hcode]

theorem clamp_pos {d lo hi : Duration} (hlo : 0 < lo) (hhi : 0 < hi) : 0 < clamp d lo hi := by
  unfold clamp
  split_ifs with h
  · exact hlo
  · exact hhi
  · exact hlo.trans_le (not_lt.mp h)

theorem cacheable_pos {ttl : Duration} {kind : Kind}
    (h : cacheable cfg.resolved m = some (ttl, kind)) : 0 < ttl := by
  have hpos : 0 < cfg.resolved.minTTL ∧ 0 < cfg.resolved.maxTTL ∧ 0 < cfg.resolved.negMinTTL ∧
      0 < cfg.resolved.negMaxTTL := by
    simp only [Anscache.Config.resolved]
    refine ⟨?_, ?_, ?_, ?_⟩
    all_goals
      split_ifs with h
      · decide
      · exact not_le.mp h
  have hneg : ∀ soa : Option (Header × UInt32), soa.map (fun soa =>
      (clamp (soaTTL soa) cfg.resolved.negMinTTL cfg.resolved.negMaxTTL, Kind.negative)) =
        some (ttl, kind) → 0 < ttl := by
    intro soa hsoa
    obtain ⟨soa, -, heq⟩ := Option.map_eq_some_iff.mp hsoa
    cases heq
    exact clamp_pos hpos.2.2.1 hpos.2.2.2
  unfold cacheable at h
  split_ifs at h
  rcases hq : m.question with _ | ⟨q, _ | ⟨q', qs⟩⟩ <;> rw [hq] at h <;> dsimp only at h
  · cases h
  · by_cases hany : q.qtype = typeANY
    · rw [if_pos hany] at h
      cases h
    rw [if_neg hany] at h
    rcases hcode : m.rcode with _ | _ | _ | _ | n <;> rw [hcode] at h <;> dsimp only at h
    · split_ifs at h
      · cases h
        exact clamp_pos hpos.1 hpos.2.1
      · exact hneg _ h
    · cases h
    · cases h
    · exact hneg _ h
    · cases h
  · cases h

theorem lookup_store {c : Cache} {ttl : Duration} {kind : Kind} (hpos : 0 < c.cfg.maxEntries)
    (hc : cacheable c.cfg m = some (ttl, kind)) (httl : 0 < ttl) :
    ((c.store k m now).lookup k now).2 = .fresh (decrementTTL (Cache.kept m) 0) := by
  have hl : (c.store k m now).entries.lookup k =
      some { body := .answer kind (Cache.kept m), insertedAt := now, ttl } := by
    rw [Cache.store, hc]
    exact Map.lookup_keepFirst_insert _ (by omega) _ _
  rw [Cache.lookup, hl]
  simp [httl]

theorem reply_exchange (hcode : cacheableRcode m.rcode = true) (hk : keyFor r.msg = some k)
    (hk' : keyFor r'.msg = some k) (hc : (cacheable cfg.resolved m).isSome) :
    ∃ s, Runs.run step (start cfg) [.request 0 r 0, .response 0 (.ok (some m)), .finish 0 0] =
        some s ∧
      s.reply (.request 0 r' 0) = some (r', .fresh (decrementTTL (Cache.kept m) 0)) := by
  obtain ⟨⟨ttl, kind⟩, hc⟩ := Option.isSome_iff_exists.mp hc
  obtain ⟨c, s, hrun, hcache, hcfg, -, hl⟩ := run_exchange cfg r (.ok (some m)) 0
  have hstored : (afterUpstream s.cache { key := keyFor r.msg } (.ok (some m)) 0).1 =
      some (c.store k m 0) := by
    rw [afterUpstream, answerOf_ok hcode, hcache, hk]
    rfl
  let s₃ : Forwarding := { cache := some (c.store k m 0), inflight := s.inflight.erase 0 }
  have hrun₃ : Runs.run step (start cfg)
      ([.request 0 r 0, .response 0 (.ok (some m))] ++ [.finish 0 0]) = some s₃ := by
    rw [Runs.run_concat, hrun, Option.bind_some, (finish_of_lookup hl).1, hstored]
  have hidle : 0 ∉ s₃.inflight := by simp [s₃, AList.mem_erase]
  have hfresh : ((c.store k m 0).lookup k 0).2 = .fresh (decrementTTL (Cache.kept m) 0) :=
    lookup_store (hcfg ▸ resolved_maxEntries_pos cfg) (hcfg ▸ hc) (cacheable_pos hc)
  refine ⟨s₃, hrun₃, ?_⟩
  rw [Forwarding.reply, if_neg hidle, beforeUpstream_fresh hk' hfresh]
  rfl

theorem served_fresh
    (H : ∀ es, Runs.Along step (start cfg) (fun _ s e => Permitted reqs exch s e) es →
      Runs.Along step (start cfg) (fun _ s e => Serves P s e) es)
    (hr : reqs r.msg) (hr' : reqs r'.msg) (hexch : exch r.msg (.ok (some m)))
    (hcode : cacheableRcode m.rcode = true) (hk : keyFor r.msg = some k)
    (hk' : keyFor r'.msg = some k) (hc : (cacheable cfg.resolved m).isSome) :
    P r' (.fresh (decrementTTL (Cache.kept m) 0)) := by
  obtain ⟨s, hrun, hreply⟩ := reply_exchange hcode hk hk' hc
  exact H _ (along_exchange 0 hr hexch hr') _ _ [] s rfl hrun r' _ hreply

end Exchange

end Forwarding

end Server

end SplitDNS
