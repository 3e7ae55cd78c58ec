import SplitDNS.Forwarder.Build

/-! # Where requests go

In every interleaving of calls, a request leaves for an upstream of the stage its
call is in, over a client that checks the name of that upstream.
-/

namespace SplitDNS.Forwarder

open Go Dns

def Pc.rest : Pc → List Upstream
  | .turn rest | .allow _ rest | .exchange _ rest | .waiting _ rest _ | .retrying _ rest _ _
  | .note _ rest _ _ | .record _ rest _ => rest
  | .returned _ => []

def Pc.current : Pc → Option Upstream
  | .allow u _ | .exchange u _ | .waiting u _ _ | .retrying u _ _ _ | .note u _ _ _
  | .record u _ _ => some u
  | .turn _ | .returned _ => none

/-- What is known of a call: its upstreams are those of its stage, and the one that has its turn
may have it. -/
structure Query.Sound (f : Setup) (log : List Entry) (i : ℕ) (q : Query) : Prop where
  stage : match q.stage with
    | .primary => q.ups = f.primary
    | .fallback => q.ups = f.fallback ∧ f.cleartext = true ∧
      ∃ err, .audited i (downgrade err q.name) ∈ log
    | .stub => ∀ u ∈ q.ups, u.net = "udp".toList
  rest : ∀ u ∈ q.pc.rest, u ∈ q.ups
  current : ∀ u ∈ q.pc.current, u ∈ q.ups ∧ lacksServerName q.stage.requireSNI u = false

/-- A request that was sent for the upstream that had its turn, or over TCP for it. -/
def Entry.Licensed (f : Setup) (pre : List Entry) : Entry → Prop
  | .sent i name stage via u => via = u.client ∧ ∃ (q : Query) (v : Upstream),
      q.Sound f pre i ∧ q.name = name ∧ q.stage = stage ∧ v ∈ q.pc.current ∧
        (u = v ∨ v.net = "udp".toList ∧ u = v.overTcp)
  | _ => True

/-- Every entry is licensed by what was observed before it. -/
def Licensed (f : Setup) : List Entry → Prop
  | [] => True
  | e :: pre => e.Licensed f pre ∧ Licensed f pre

theorem Licensed.of_append {f : Setup} {post pre : List Entry} {e : Entry}
    (h : Licensed f (post ++ e :: pre)) : e.Licensed f pre := by
  induction post with
  | nil => exact h.1
  | cons _ _ ih => exact ih h.2

/-- The clients are those for the transport and name in their key. -/
def Keyed (clients : Map Str Client) : Prop :=
  ∀ u : Upstream, '|' ∉ u.net → ∀ c ∈ clients.lookup (u.net ++ '|' :: u.serverName), c = u.client

section Moves

variable {f : Setup} {i : ℕ} {s s' : Shared} {q q' : Query} {u : Upstream}

theorem client_of_key_eq {v : Upstream} (hu : '|' ∉ u.net) (hv : '|' ∉ v.net)
    (h : u.net ++ '|' :: u.serverName = v.net ++ '|' :: v.serverName) : u.client = v.client := by
  obtain ⟨hnet, hname⟩ := Strings.append_cons_inj hu hv h
  rw [Upstream.client, Upstream.client, hnet, hname]

theorem Keyed.send (h : Keyed s.clients) (hu : '|' ∉ u.net) (name : Str)
    (stage : Stage) :
    Keyed (s.send i name stage u).clients ∧
      (s.send i name stage u).log = .sent i name stage u.client u :: s.log := by
  unfold Shared.send Shared.clientFor
  split
  · rename_i c hc
    rw [h u hu c hc]
    exact ⟨h, rfl⟩
  · refine ⟨fun v hv c hc => ?_, rfl⟩
    rw [Shared.logged, Map.lookup_insert_eq_ite] at hc
    split_ifs at hc with heq
    · rw [← Option.mem_some_iff.mp hc]
      exact client_of_key_eq hu hv heq.symm
    · exact h v hv c hc

theorem Query.Sound.mono {log log' : List Entry} (h : q.Sound f log i) (hlog : log ⊆ log') :
    q.Sound f log' i := by
  refine ⟨?_, h.rest, h.current⟩
  have hstage := h.stage
  split at hstage
  · exact hstage
  · obtain ⟨hups, hcleartext, err, hmem⟩ := hstage
    exact ⟨hups, hcleartext, err, hlog hmem⟩
  · exact hstage

theorem Query.Sound.of_pc {log : List Entry} (h : q.Sound f log i) (hname : q'.name = q.name)
    (hstage : q'.stage = q.stage) (hups : q'.ups = q.ups) (hrest : ∀ u ∈ q'.pc.rest, u ∈ q.ups)
    (hcurrent : ∀ u ∈ q'.pc.current, u ∈ q.ups ∧ lacksServerName q.stage.requireSNI u = false) :
    q'.Sound f log i := by
  obtain ⟨hs, -, -⟩ := h
  refine ⟨?_, hups ▸ hrest, hups ▸ hstage ▸ hcurrent⟩
  rw [hstage, hups, hname]
  exact hs

theorem not_mem_net {log : List Entry} (h : q.Sound f log i) (hu : u ∈ q.ups) : '|' ∉ u.net := by
  have hstage := h.stage
  split at hstage
  · exact f.nets u (List.mem_append_left _ (hstage ▸ hu))
  · exact f.nets u (List.mem_append_right _ (hstage.1 ▸ hu))
  · rw [hstage u hu]
    decide

theorem Query.Sound.moves {log : List Entry} (h : q.Sound f log i) (hm : Moves f i s q s' q')
    (hlog : ∀ e, s'.log = e :: s.log → e ∈ log) : q'.Sound f log i := by
  have hrest := h.rest
  have hcurrent := h.current
  cases hm with
  | skip _ hpc =>
    rw [hpc] at hrest
    exact h.of_pc rfl rfl rfl (fun v hv => hrest v (List.mem_cons_of_mem _ hv)) nofun
  | guarded hpc hname | unguarded hpc hname | forced hpc hname =>
    rw [hpc] at hrest
    refine h.of_pc rfl rfl rfl (fun v hv => hrest v (List.mem_cons_of_mem _ hv)) ?_
    rintro v ⟨⟩
    exact ⟨hrest _ List.mem_cons_self, hname⟩
  | again => exact h.of_pc rfl rfl rfl (fun _ hv => hv) nofun
  | downgrade err _ _ hcleartext =>
    exact ⟨⟨rfl, hcleartext, err, hlog _ rfl⟩, fun _ hv => hv, nofun⟩
  | giveUp => exact h.of_pc rfl rfl rfl nofun nofun
  | refused _ hpc =>
    rw [hpc] at hrest
    exact h.of_pc rfl rfl rfl hrest nofun
  | allowed hpc | send hpc | truncated _ hpc | answered _ hpc | retried _ hpc | note hpc =>
    rw [hpc] at hrest hcurrent
    exact h.of_pc rfl rfl rfl hrest hcurrent
  | @record _ _ out hpc | @unrecorded _ _ out hpc =>
    rw [hpc] at hrest
    cases out with
    | ok resp => exact h.of_pc rfl rfl rfl nofun nofun
    | error err => exact h.of_pc rfl rfl rfl hrest nofun

/-- A section leaves the clients and the log, or audits the fallback, or sends a request for the
upstream that has its turn. -/
theorem log_of_moves (hm : Moves f i s q s' q') :
    s'.clients = s.clients ∧ (s'.log = s.log ∨ ∃ text, s'.log = .audited i text :: s.log) ∨
      ∃ u v, s' = s.send i q.name q.stage u ∧ v ∈ q.pc.current ∧
        (u = v ∨ v.net = "udp".toList ∧ u = v.overTcp) := by
  cases hm with
  | skip | guarded | unguarded | forced | again | giveUp | answered | retried | unrecorded
  | refused | allowed | note | record => exact .inl ⟨rfl, .inl rfl⟩
  | downgrade => exact .inl ⟨rfl, .inr ⟨_, rfl⟩⟩
  | @send u _ hpc => exact .inr ⟨u, u, rfl, by rw [hpc]; rfl, .inl rfl⟩
  | @truncated u _ _ _ hpc hudp =>
    exact .inr ⟨u.overTcp, u, rfl, by rw [hpc]; rfl, .inr ⟨hudp, rfl⟩⟩

end Moves

namespace System

/-- What is known of the forwarder in every interleaving. -/
structure Contacted (f : Setup) (s : System) : Prop where
  keyed : Keyed s.shared.clients
  licensed : Licensed f s.shared.log
  sound : ∀ i (q : Query), s.queries[i]? = some q → q.Sound f s.shared.log i

variable {f : Setup} {s s' : System}

theorem Contacted.act (h : Contacted f s) {i : ℕ} {q q' : Query} {sh : Shared}
    (hq : s.queries[i]? = some q) (hm : Moves f i s.shared q sh q') :
    Contacted f ⟨sh, s.queries.set i q'⟩ := by
  have hs := h.sound i q hq
  have hnext : Keyed sh.clients ∧ Licensed f sh.log ∧ s.shared.log ⊆ sh.log := by
    rcases log_of_moves hm with ⟨hclients, hlog | ⟨text, hlog⟩⟩ | ⟨u, v, rfl, hv, huv⟩
    · rw [hclients, hlog]
      exact ⟨h.keyed, h.licensed, List.Subset.refl _⟩
    · rw [hclients, hlog]
      exact ⟨h.keyed, ⟨trivial, h.licensed⟩, List.subset_cons_self _ _⟩
    · have hu : '|' ∉ u.net := by
        rcases huv with rfl | ⟨-, rfl⟩
        · exact not_mem_net hs (hs.current u hv).1
        · simp [Upstream.overTcp]
      obtain ⟨hkeyed, hlog⟩ := @Keyed.send i _ _ h.keyed hu q.name q.stage
      refine ⟨hkeyed, ?_, ?_⟩ <;> rw [hlog]
      · exact ⟨⟨rfl, q, v, hs, rfl, rfl, hv, huv⟩, h.licensed⟩
      · exact List.subset_cons_self _ _
  obtain ⟨hkeyed, hlicensed, hlog⟩ := hnext
  refine ⟨hkeyed, hlicensed, fun j p hp => ?_⟩
  rcases getElem?_set_eq_some hp with ⟨rfl, rfl⟩ | ⟨-, hp⟩
  · refine (hs.mono hlog).moves hm fun e he => ?_
    rw [he]
    exact List.mem_cons_self
  · exact (h.sound j p hp).mono hlog

theorem Contacted.step (h : Contacted f s) (hs : Steps f s s') : Contacted f s' := by
  cases hs with
  | elapse | switch => exact ⟨h.keyed, h.licensed, h.sound⟩
  | call q hstage hpc =>
    refine ⟨h.keyed, h.licensed, fun i p hp => ?_⟩
    rcases getElem?_concat_eq_some hp with hp | ⟨-, rfl⟩
    · exact h.sound i p hp
    · refine ⟨?_, ?_, ?_⟩
      · rcases hstage with ⟨hstage, hups⟩ | ⟨hstage, hups⟩ <;> rw [hstage] <;> exact hups
      · rw [hpc]
        exact fun _ hv => hv
      · rw [hpc]
        exact nofun
  | act hq hm => exact h.act hq hm

theorem contacted_of_run {now : Time} {es : List Event}
    (h : Runs.run (step f) (init now) es = some s) : Contacted f s := by
  refine Runs.inv_of_steps ?_ (fun _ _ _ hi hs => hi.step (steps_of_step hs)) h
  refine ⟨?_, trivial, ?_⟩
  · intro u _ c hc
    simp [init] at hc
  · intro i q hq
    simp [init] at hq

/-- In every interleaving, a query leaves for a configured server over TLS, with the name that the
server is configured with or known under, or in the clear, but then the fallback is enabled and
the downgrade of this very query was audited before. Only stub targets are asked in the clear
otherwise. -/
theorem sent_secure {servers : List Str} {cleartext breaker : Bool} {now : Time}
    {es : List Event} (hf : build servers cleartext breaker = some f)
    (h : Runs.run (step f) (init now) es = some s) {post pre : List Entry} {i : ℕ} {name : Str}
    {stage : Stage} {via : Client} {u : Upstream}
    (hlog : s.shared.log = post ++ .sent i name stage via u :: pre) :
    (stage = .primary → ∃ server ∈ servers, u = (parseServer server).primary ∧
      (parseServer server).name ≠ [] ∧
      via = ⟨"tcp-tls".toList, some (parseServer server).name⟩) ∧
    (stage = .fallback → cleartext = true ∧ (∃ server ∈ servers,
        u = (parseServer server).fallback ∨ u = (parseServer server).fallback.overTcp) ∧
      ∃ err, .audited i (downgrade err name) ∈ pre) ∧
    (stage = .stub → u.net = "udp".toList ∨ u.net = "tcp".toList) := by
  obtain ⟨hprimary, hfallback, hcleartext, -⟩ := build_eq_some hf
  have hlicensed := (contacted_of_run h).licensed
  rw [hlog] at hlicensed
  obtain ⟨rfl, q, v, hs, rfl, hstage, hv, huv⟩ := hlicensed.of_append
  obtain ⟨hmem, hname⟩ := hs.current v hv
  have hups := hs.stage
  refine ⟨?_, ?_, ?_⟩ <;> rintro rfl <;> rw [hstage] at hups
  · simp only [hprimary] at hups
    rw [hups] at hmem
    obtain ⟨t, ht, rfl⟩ := List.mem_map.mp hmem
    obtain ⟨server, hserver, rfl⟩ := List.mem_map.mp ht
    obtain rfl : u = (parseServer server).primary :=
      huv.resolve_right fun hudp => absurd hudp.1 (by simp [Target.primary])
    refine ⟨server, hserver, rfl, ?_, rfl⟩
    intro hnone
    rw [lacksServerName, hstage] at hname
    simp [Stage.requireSNI, Target.primary, hnone] at hname
  · obtain ⟨hups, hclear, herr⟩ := hups
    rw [hups, hfallback] at hmem
    obtain ⟨t, ht, rfl⟩ := List.mem_map.mp hmem
    obtain ⟨server, hserver, rfl⟩ := List.mem_map.mp ht
    exact ⟨hcleartext ▸ hclear, ⟨server, hserver, huv.imp id And.right⟩, herr⟩
  · rcases huv with rfl | ⟨-, rfl⟩
    · exact .inl (hups u hmem)
    · exact .inr rfl

/-- A query that the only server does not answer over TLS is audited and then asked in the
clear. -/
theorem sent_after_downgrade :
    ∃ s, Runs.run (step oneServer) (init 0) ([.forward ['a'], .work 0, .work 0, .work 0,
        .answer 0 (.error [])] ++ List.replicate 6 (.work 0)) = some s ∧
      ∃ via u pre, s.shared.log = .sent 0 ['a'] .fallback via u :: pre ∧
        ∃ err, .audited 0 (downgrade err ['a']) ∈ pre := by
  obtain ⟨s, hs, hhead⟩ := Option.map_eq_some_iff.mp (show
    (Runs.run (step oneServer) (init 0) ([.forward ['a'], .work 0, .work 0, .work 0,
      .answer 0 (.error [])] ++ List.replicate 6 (.work 0))).map (fun s => s.shared.log.head?) =
      some (some (.sent 0 ['a'] .fallback ⟨"udp".toList, none⟩
        ⟨"1.1.1.1:53".toList, "udp".toList, []⟩)) by decide +kernel)
  obtain ⟨pre, hpre⟩ := List.head?_eq_some_iff.mp hhead
  have hbuild : build ["1.1.1.1".toList] true true = some oneServer := rfl
  have hlog : s.shared.log = [] ++ _ :: pre := hpre
  exact ⟨s, hs, _, _, pre, hpre, ((sent_secure hbuild hs hlog).2.1 rfl).2.2⟩

end System

end SplitDNS.Forwarder
