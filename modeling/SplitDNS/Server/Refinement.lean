import SplitDNS.Server.Origin
import SplitDNS.Server.Telemetry

/-! # The handler refines the forward path

As long as the cache is not flushed, what the calls do on the forward path is a
run of that path alone: with the same cache, the same requests under way, and a
reply of that run for every call that was answered from the cache or from
upstream. What holds of every run of the forward path thus holds of the messages
that the server hands to its writers.
-/

namespace SplitDNS.Server.Serving

open Go Go.Netip Dns Model Resolver

/-- A call on its way upstream, as the forward path keeps it. -/
def Call.inflight (c : Call) : Option (Request × Pending × Option Response) :=
  match c.phase with
  | .upstream snap p => some (c.request snap.allowSuffix, p, none)
  | .answered snap p resp => some (c.request snap.allowSuffix, p, some resp)
  | _ => none

def Call.forwarded (c : Call) : Bool :=
  match c.phase with
  | .returning | .released | .done =>
    c.res.decision = .cacheHit || c.res.decision = .stale || c.res.decision = .forward
  | _ => false

def ofRequest (id : ℕ) : Server.Event → Bool
  | .request id' _ _ | .response id' _ | .finish id' _ => id = id'

/-- A step of the request in a run of the forward path gives the reply that was written. -/
def Served (f : Setup) (cache : Option Anscache.Cache) (es : List Server.Event) (i : ℕ) (c : Call)
    (ms : List Msg) : Prop :=
  ∃ pre e post fw allow reply, es = pre ++ e :: post ∧ ofRequest i e = true ∧
    Runs.run Forwarding.step { cache } pre = some fw ∧
    fw.reply e = some (c.request allow, reply) ∧
    ms = [reply.written f.trunc (c.request allow)]

theorem req_of_moves {f : Setup} {i : ℕ} {s s' : Shared} {c c' : Call}
    (h : Moves f i s c s' c') : c'.req = c.req := by
  cases h <;> rfl

section Served

variable {f : Setup} {cache : Option Anscache.Cache} {es : List Server.Event} {i : ℕ}
  {c c' : Call} {ms : List Msg} {fw fw' : Forwarding} {r : Request} {now : Time}

theorem Served.mono (h : Served f cache es i c ms) (es' : List Server.Event)
    (hreq : c'.req = c.req) (hremote : c'.remote = c.remote) :
    Served f cache (es ++ es') i c' ms := by
  obtain ⟨pre, e, post, fw, allow, reply, rfl, hrest⟩ := h
  refine ⟨pre, e, post ++ es', fw, allow, reply, by simp, ?_⟩
  rw [Call.request, hreq, hremote]
  exact hrest

theorem request_hit {reply : Reply} (hnone : fw.inflight.lookup i = none)
    (hbefore : beforeUpstream fw.cache r.msg now = (cache, .inl reply)) :
    fw.step (.request i r now) = some { fw with cache } ∧
      fw.reply (.request i r now) = some (r, reply) := by
  have hmem : i ∉ fw.inflight := AList.lookup_eq_none.mp hnone
  constructor
  · simp [Forwarding.step, Forwarding.request, hmem, hbefore]
  · simp [Forwarding.reply, hmem, hbefore]

theorem request_forward {p : Pending} (hnone : fw.inflight.lookup i = none)
    (hbefore : beforeUpstream fw.cache r.msg now = (cache, .inr p)) :
    fw.step (.request i r now) =
      some { cache, inflight := fw.inflight.insert i (r, p, none) } := by
  have hmem : i ∉ fw.inflight := AList.lookup_eq_none.mp hnone
  simp [Forwarding.step, Forwarding.request, hmem, hbefore]

theorem response_step {p : Pending} (hlookup : fw.inflight.lookup i = some (r, p, none))
    (resp : Response) : fw.step (.response i resp) =
      some { fw with inflight := fw.inflight.insert i (r, p, some resp) } := by
  simp [Forwarding.step, Forwarding.response, hlookup]

theorem finish_step {p : Pending} {resp : Response} {reply : Reply}
    (hlookup : fw.inflight.lookup i = some (r, p, some resp))
    (hafter : afterUpstream fw.cache p resp now = (cache, reply)) :
    fw.step (.finish i now) = some { cache, inflight := fw.inflight.erase i } ∧
      fw.reply (.finish i now) = some (r, reply) := by
  constructor
  · simp [Forwarding.step, Forwarding.finish, hlookup, hafter]
  · simp [Forwarding.reply, hlookup, hafter]

end Served

namespace System

variable {f : Setup} {s s' : System} {cache : Option Anscache.Cache} {es' : List Server.Event}
  {fw fw' : Forwarding} {i : ℕ} {c c' : Call} {sh : Shared}

variable {reqs : Msg → Prop} {exch : Msg → Response → Prop}

/-- A run of the forward path alone that does what the calls did, on the requests and responses
that they had. -/
structure Projects (f : Setup) (reqs : Msg → Prop) (exch : Msg → Response → Prop)
    (cache : Option Anscache.Cache) (es' : List Server.Event) (fw : Forwarding) (s : System) :
    Prop where
  run : Runs.run Forwarding.step { cache } es' = some fw
  permitted : Runs.Along Forwarding.step { cache } (fun _ s e => Permitted reqs exch s e) es'
  cache_eq : fw.cache = s.shared.cache
  inflight : ∀ i, fw.inflight.lookup i = s.calls[i]?.bind Call.inflight
  served : ∀ i (c : Call), s.calls[i]? = some c → c.forwarded = true →
    Served f cache es' i c (written i s.shared.log)

theorem Projects.lookup (h : Projects f reqs exch cache es' fw s) (hc : s.calls[i]? = some c) :
    fw.inflight.lookup i = c.inflight := by
  rw [h.inflight, hc, Option.bind_some]

theorem Projects.lookup_set (h : Projects f reqs exch cache es' fw s) (hc : s.calls[i]? = some c)
    (j : ℕ) : (s.calls.set i c')[j]?.bind Call.inflight =
      if j = i then c'.inflight else fw.inflight.lookup j := by
  have hlt := (List.getElem?_eq_some_iff.mp hc).1
  rw [List.getElem?_set]
  split_ifs with hij hji hji
  · rfl
  · exact absurd hij.symm hji
  · exact absurd hji.symm hij
  · exact (h.inflight j).symm

theorem Projects.served_set (h : Projects f reqs exch cache es' fw s)
    (hmoves : Moves f i s.shared c sh c') (new : List Server.Event)
    (hserved : c'.forwarded = true → Served f cache (es' ++ new) i c' (written i sh.log))
    {j : ℕ} {c₁ : Call} (hc₁ : (s.calls.set i c')[j]? = some c₁)
    (hforwarded : c₁.forwarded = true) :
    Served f cache (es' ++ new) j c₁ (written j sh.log) := by
  rcases getElem?_set_eq_some hc₁ with ⟨rfl, rfl⟩ | ⟨hne, hc₁⟩
  · exact hserved hforwarded
  · rw [(effects_of_moves hmoves hne).1]
    exact (h.served j c₁ hc₁ hforwarded).mono new rfl rfl

theorem Projects.act {e : Server.Event} (h : Projects f reqs exch cache es' fw s)
    (hc : s.calls[i]? = some c) (hmoves : Moves f i s.shared c sh c')
    (hstep : fw.step e = some fw') (hpermitted : Permitted reqs exch fw e)
    (hcache : fw'.cache = sh.cache)
    (hinflight : ∀ j, fw'.inflight.lookup j =
      if j = i then c'.inflight else fw.inflight.lookup j)
    (hserved : c'.forwarded = true → Served f cache (es' ++ [e]) i c' (written i sh.log)) :
    ∃ es' fw', Projects f reqs exch cache es' fw' ⟨sh, s.calls.set i c'⟩ := by
  refine ⟨es' ++ [e], fw', ?_, ?_, hcache, fun j => ?_, fun j c₁ hc₁ => ?_⟩
  · rw [Runs.run_concat, h.run]
    exact hstep
  · exact (Runs.along_concat h.run).mpr ⟨h.permitted, hpermitted⟩
  · rw [hinflight, h.lookup_set hc]
  · exact h.served_set hmoves [e] hserved hc₁

theorem Projects.quiet (h : Projects f reqs exch cache es' fw s) (hc : s.calls[i]? = some c)
    (hmoves : Moves f i s.shared c sh c') (hcache : sh.cache = s.shared.cache)
    (hinflight : c'.inflight = c.inflight)
    (hserved : c'.forwarded = true → Served f cache (es' ++ []) i c' (written i sh.log)) :
    ∃ es' fw', Projects f reqs exch cache es' fw' ⟨sh, s.calls.set i c'⟩ := by
  refine ⟨es', fw, h.run, h.permitted, h.cache_eq.trans hcache.symm, fun j => ?_,
    fun j c₁ hc₁ hforwarded => ?_⟩
  · rw [h.lookup_set hc]
    split_ifs with hji
    · rw [hji, hinflight, h.lookup hc]
    · rfl
  · have hset := h.served_set hmoves [] hserved hc₁ hforwarded
    rwa [List.append_nil] at hset

theorem Projects.step (hon : f.forwarder = true) (h : Projects f reqs exch cache es' fw s)
    (hc : s.calls[i]? = some c) (hmoves : Moves f i s.shared c sh c') (hcourse : c.OnCourse)
    (htells : c.Tells f i s.shared.log) (hreq : reqs c.req)
    (hresp : ∀ snap p resp, c.phase = .upstream snap p → c'.phase = .answered snap p resp →
      exch c.req resp) :
    ∃ es' fw', Projects f reqs exch cache es' fw' ⟨sh, s.calls.set i c'⟩ := by
  unfold Call.OnCourse at hcourse
  unfold Call.Tells at htells
  have hmoves' := hmoves
  cases hmoves with
  | @hit snap _ _ _ _ hphase hbefore =>
    rw [hphase] at htells
    have hnone : fw.inflight.lookup i = none := by
      rw [h.lookup hc, Call.inflight, hphase]
    obtain ⟨hstep, hreply⟩ := request_hit (r := c.request snap.allowSuffix) hnone
      (h.cache_eq ▸ hbefore)
    refine h.act hc hmoves' hstep hreq rfl (fun j => ?_) fun _ => ?_
    · split_ifs with hji
      · rw [hji]
        exact hnone
      · rfl
    · refine ⟨es', _, [], fw, _, _, rfl, by simp [ofRequest], h.run, hreply, ?_⟩
      rw [Shared.write, Shared.logged, written_replied, if_pos rfl, htells.2.1]
      rfl
  | @forward snap _ _ _ _ hphase hbefore =>
    have hnone : fw.inflight.lookup i = none := by
      rw [h.lookup hc, Call.inflight, hphase]
    have hstep := request_forward (r := c.request snap.allowSuffix) hnone (h.cache_eq ▸ hbefore)
    refine h.act hc hmoves' hstep hreq rfl (fun j => ?_) (by simp [Call.forwarded])
    exact Map.lookup_insert_eq_ite _ _ _ _
  | answer resp hphase =>
    have hlookup := h.lookup hc
    rw [Call.inflight, hphase] at hlookup
    refine h.act hc hmoves' (response_step hlookup resp) (fun r p x hr => ?_) h.cache_eq
      (fun j => ?_) (by simp [Call.forwarded])
    · rw [hlookup] at hr
      cases hr
      exact hresp _ _ resp hphase rfl
    · exact Map.lookup_insert_eq_ite _ _ _ _
  | finish hphase hafter =>
    rw [hphase] at htells
    have hlookup := h.lookup hc
    rw [Call.inflight, hphase] at hlookup
    obtain ⟨hstep, hreply⟩ := finish_step hlookup (h.cache_eq ▸ hafter)
    refine h.act hc hmoves' hstep trivial rfl (fun j => ?_) fun _ => ?_
    · split_ifs with hji
      · rw [hji]
        exact AList.lookup_erase _ _
      · exact AList.lookup_erase_ne hji
    · refine ⟨es', _, [], fw, _, _, rfl, by simp [ofRequest], h.run, hreply, ?_⟩
      rw [Shared.write, Shared.logged, written_replied, if_pos rfl, htells.2.1]
      rfl
  | release hphase | pass hphase =>
    refine h.quiet hc hmoves' rfl (by simp [Call.inflight, hphase]) fun hforwarded => ?_
    have hbefore : c.forwarded = true := by simpa [Call.forwarded, hphase] using hforwarded
    exact (h.served i c hc hbefore).mono [] rfl rfl
  | record now hphase =>
    refine h.quiet hc hmoves' rfl (by simp [Call.inflight, hphase]) fun hforwarded => ?_
    have hbefore : c.forwarded = true := by simpa [Call.forwarded, hphase] using hforwarded
    rw [written_recorded]
    exact (h.served i c hc hbefore).mono [] rfl rfl
  | fail allow decision hphase hdecision =>
    refine h.quiet hc hmoves' rfl ?_ fun hforwarded => ?_
    · rcases hphase with ⟨snap, out, hphase⟩ | ⟨snap, hphase⟩ <;> simp [Call.inflight, hphase]
    · rcases hdecision with rfl | ⟨hoff, -⟩
      · rcases hphase with ⟨snap, out, hphase⟩ | ⟨snap, hphase⟩ <;>
          simp [Call.forwarded, hphase] at hcourse hforwarded <;> simp [hcourse] at hforwarded
      · simp [hon] at hoff
  | stubbed m hphase =>
    rw [hphase] at hcourse
    refine h.quiet hc hmoves' rfl (by simp [Call.inflight, hphase]) fun hforwarded => ?_
    simp [Call.forwarded, hcourse] at hforwarded
  | overflow hphase =>
    refine h.quiet hc hmoves' (by split_ifs <;> rfl) (by simp [Call.inflight, hphase]) ?_
    simp [Call.forwarded]
  | resolve hphase =>
    refine h.quiet hc hmoves' rfl ?_ (by simp [Call.forwarded])
    rcases hphase with hphase | hphase <;> simp [Call.inflight, hphase]
  | refuse hphase | reply hphase =>
    refine h.quiet hc hmoves' rfl (by simp [Call.inflight, hphase]) ?_
    simp [Call.forwarded]
  | enter hphase | load hphase | miss _ hphase | leave hphase | solicit hphase | degrade hphase
    | wake hphase | stub hphase =>
    exact h.quiet hc hmoves' rfl (by simp [Call.inflight, hphase]) (by simp [Call.forwarded])

/-- What a run of the server is given: which queries come in and which responses they get. The
cache is not flushed. -/
def Given (reqs : Msg → Prop) (exch : Msg → Response → Prop) (s : System) : Event → Prop
  | .query _ _ req _ => reqs req
  | .answer i resp => ∀ c, s.calls[i]? = some c → exch c.req resp
  | .flush => False
  | _ => True

/-- The state after a run, with a run of the forward path that it projects to. -/
structure Projected (f : Setup) (reqs : Msg → Prop) (exch : Msg → Response → Prop)
    (cache : Option Anscache.Cache) (es : List Event) (s : System) : Prop where
  run : Runs.run (System.step f) (init cache) es = some s
  projects : ∃ es' fw, Projects f reqs exch cache es' fw s
  asked : ∀ c ∈ s.calls, reqs c.req

theorem Projected.act (hon : f.forwarder = true) {es : List Event}
    (h : Projected f reqs exch cache es s) (hc : s.calls[i]? = some c)
    (hmoves : Moves f i s.shared c sh c')
    (hresp : ∀ snap p resp, c.phase = .upstream snap p → c'.phase = .answered snap p resp →
      exch c.req resp) :
    (∃ es' fw, Projects f reqs exch cache es' fw ⟨sh, s.calls.set i c'⟩) ∧
      ∀ c₁ ∈ s.calls.set i c', reqs c₁.req := by
  have hmem := List.mem_of_getElem? hc
  obtain ⟨es', fw, hprojects⟩ := h.projects
  refine ⟨hprojects.step hon hc hmoves (onCourse_of_run h.run c hmem)
    ((telling_of_run h.run).calls i c hc) (h.asked c hmem) hresp, fun c₁ hc₁ => ?_⟩
  rcases List.mem_or_eq_of_mem_set hc₁ with hc₁ | rfl
  · exact h.asked c₁ hc₁
  · rw [req_of_moves hmoves]
    exact h.asked c hmem

theorem Projected.step (hon : f.forwarder = true) {es : List Event} {e : Event}
    (h : Projected f reqs exch cache es s) (hgiven : Given reqs exch s e)
    (hs : s.step f e = some s') :
    (∃ es' fw, Projects f reqs exch cache es' fw s') ∧ ∀ c ∈ s'.calls, reqs c.req := by
  cases e with
  | query remote label req start =>
    cases hs
    obtain ⟨es', fw, hprojects⟩ := h.projects
    refine ⟨⟨es', fw, hprojects.run, hprojects.permitted, hprojects.cache_eq, fun j => ?_,
      fun j c hc hforwarded => ?_⟩, fun c hc => ?_⟩
    · rw [hprojects.inflight, List.getElem?_append]
      split_ifs with hlt
      · rfl
      · rw [List.getElem?_eq_none (not_lt.mp hlt), List.getElem?_singleton]
        split_ifs <;> rfl
    · rcases getElem?_concat_eq_some hc with hc | ⟨rfl, rfl⟩
      · exact hprojects.served j c hc hforwarded
      · cases hforwarded
    · rcases List.mem_append.mp hc with hc | hc
      · exact h.asked c hc
      · rw [List.mem_singleton.mp hc]
        exact hgiven
  | publishSnapshot | publishView =>
    cases hs
    obtain ⟨es', fw, hprojects⟩ := h.projects
    exact ⟨⟨es', fw, hprojects.run, hprojects.permitted, hprojects.cache_eq, hprojects.inflight,
      hprojects.served⟩, h.asked⟩
  | flush => exact hgiven.elim
  | work i now =>
    obtain ⟨c, sh, c', hc, hwork, rfl⟩ := exists_of_act hs
    refine h.act hon hc (moves_of_work hwork) fun snap p resp hphase _ => ?_
    simp [work, hphase] at hwork
  | wake i =>
    obtain ⟨c, sh, c', hc, hwake, rfl⟩ := exists_of_act hs
    refine h.act hon hc (moves_of_wake hwake) fun snap p resp hphase _ => ?_
    simp [wake, hphase] at hwake
  | answer i resp =>
    obtain ⟨c, sh, c', hc, hanswer, rfl⟩ := exists_of_act hs
    refine h.act hon hc (moves_of_answer hanswer) fun snap p resp' hphase hphase' => ?_
    simp only [answer, hphase, Option.some.injEq, Prod.mk.injEq] at hanswer
    obtain ⟨-, rfl⟩ := hanswer
    obtain ⟨-, -, rfl⟩ := Phase.answered.inj hphase'
    exact hgiven c hc

/-- A run of the server without a flush projects to a run of the forward path on the same requests
and responses. -/
theorem exists_projects (hon : f.forwarder = true) {es : List Event}
    (hgiven : Runs.Along (System.step f) (init cache) (fun _ s e => Given reqs exch s e) es)
    (h : Runs.run (System.step f) (init cache) es = some s) :
    ∃ es' fw, Projects f reqs exch cache es' fw s := by
  refine (@Runs.inv_of_run _ _ _ _ _ _ (Projected f reqs exch cache) _ ⟨rfl, ?_, ?_⟩
    (fun es s e s' hi hg hs => ?_) hgiven h).projects
  · exact ⟨[], { cache }, rfl, Runs.along_nil, rfl, fun i => by simp [init], by simp [init]⟩
  · simp [init]
  · obtain ⟨hprojects, hasked⟩ := hi.step hon hg hs
    exact ⟨by rw [Runs.run_concat, hi.run]; exact hs, hprojects, hasked⟩

/-- With a forwarder, every interleaving without a flush projects to a run of the forward path
alone: with the same cache, the same requests under way and the same replies. What the server hands
to the writer for a call on that path is thus a failure, the answer of the upstreams to this very
query, or one that they gave to a query with the same key before and that the cache kept, its
lifetimes apart, each screened and stamped for the query by the one egress. -/
theorem forwarded_genuine (hon : f.forwarder = true) (cfg : Anscache.Config) {es : List Event}
    (hgiven : Runs.Along (System.step f) (init (some (Anscache.Cache.new cfg)))
      (fun _ s e => Given reqs exch s e) es)
    (h : Runs.run (System.step f) (init (some (Anscache.Cache.new cfg))) es = some s) :
    (∃ es' fw, Projects f reqs exch (some (Anscache.Cache.new cfg)) es' fw s) ∧
    ∀ i (c : Call), s.calls[i]? = some c → c.forwarded = true →
      ∃ allow reply, Genuine reqs exch c.req reply ∧
        written i s.shared.log = [reply.written f.trunc (c.request allow)] := by
  obtain ⟨es', fw, hprojects⟩ := exists_projects hon hgiven h
  refine ⟨⟨es', fw, hprojects⟩, fun i c hc hforwarded => ?_⟩
  obtain ⟨pre, e, post, fw', allow, reply, hes, -, hrun, hreply, hwritten⟩ :=
    hprojects.served i c hc hforwarded
  have hserves := Forwarding.along_genuine cfg hprojects.permitted pre e post fw' hes hrun
  exact ⟨allow, reply, (hserves _ reply hreply).2, hwritten⟩

/-- A query that the upstreams answer, up to its reply. -/
def askedUpstream (m : Msg) : List Event :=
  .query (.udp [10, 0, 0, 1]) none (ask "example.com.".toList typeA) 0 ::
    (List.replicate 4 (.work 0 0) ++ [.answer 0 (.ok (some m)), .work 0 0])

/-- The answer of the upstreams is what is handed to the writer. -/
theorem forwarded_genuine_upstream :
    ∃ s allow reply, Runs.run (System.step oneAtATime) (init (some (Anscache.Cache.new
        Anscache.defaults))) (askedUpstream {}) = some s ∧
      Genuine (fun _ => True) (fun _ resp => resp = .ok (some {}))
        (ask "example.com.".toList typeA) reply ∧
      written 0 s.shared.log = [reply.written default
        ⟨ask "example.com.".toList typeA, false, allow⟩] := by
  obtain ⟨s, hs, hmap⟩ := Option.map_eq_some_iff.mp (show
    (Runs.run (System.step oneAtATime) (init (some (Anscache.Cache.new Anscache.defaults)))
      (askedUpstream {})).map
        (fun s => s.calls[0]?.map fun c => (c.req, c.remote, c.forwarded)) =
          some (some (ask "example.com.".toList typeA, .udp [10, 0, 0, 1], true)) by
      decide +kernel)
  obtain ⟨c, hc, hparts⟩ := Option.map_eq_some_iff.mp hmap
  obtain ⟨hreq, hparts⟩ := Prod.mk.inj hparts
  obtain ⟨hremote, hforwarded⟩ := Prod.mk.inj hparts
  have hgiven : Runs.Along (System.step oneAtATime)
      (init (some (Anscache.Cache.new Anscache.defaults)))
      (fun _ s e => Given (fun _ => True) (fun _ resp => resp = .ok (some {})) s e)
      (askedUpstream {}) := by
    intro pre e post s hes _
    have hmem : e ∈ askedUpstream {} := hes ▸ List.mem_append_right pre List.mem_cons_self
    simp only [askedUpstream, List.replicate, List.cons_append, List.nil_append, List.mem_cons,
      List.not_mem_nil, or_false] at hmem
    rcases hmem with rfl | rfl | rfl | rfl | rfl | rfl | rfl <;> simp [Given]
  obtain ⟨allow, reply, hgenuine, hwritten⟩ :=
    (forwarded_genuine rfl Anscache.defaults hgiven hs).2 0 c hc hforwarded
  refine ⟨s, allow, reply, hs, hreq ▸ hgenuine, ?_⟩
  rw [hwritten, Call.request, hreq, hremote]
  rfl

end System

end SplitDNS.Server.Serving
