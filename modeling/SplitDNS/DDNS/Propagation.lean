import SplitDNS.DDNS.Pipeline

/-! # Propagation of announced addresses

When the daemon is idle, the host's records hold the public addresses of its
cached set, unless the newest change was refused by a rate guard. A refused
change is not tried again: the cache has already marked its set as notified, and
announcing the same set once more is no change.
-/

namespace SplitDNS.DDNS

open Go Go.Netip Go.Strings Model Netmatch MDNS

/-- A trusted-enough announcement of plain addresses for the host, or a step of the writer. -/
def SysEvent.ForHost (host : Str) : SysEvent → Prop
  | announce a _ trust _ =>
    a.host = host ∧ trust.triggersDDNS = true ∧ ∀ x ∈ a.addrs, Plain x
  | take => True
  | finish _ _ _ => True

def SysEvent.announcement : SysEvent → Option Announcement
  | announce a _ _ _ => some a
  | take => none
  | finish _ _ _ => none

def lastAnnouncement (hist : List SysEvent) : Option Announcement :=
  (hist.filterMap SysEvent.announcement).getLast?

namespace System

variable {F : Type*} {ids : IdSource} {s s' : System F} {hist : List SysEvent} {host name : Str}

/-- A rate guard refuses the newest change while the records differ from its public addresses. -/
def Refuses [Float64 F] (name : Str) (s : System F) : SysEvent → Prop
  | .finish now _ _ =>
    s.queue = [] ∧ ∃ c ∈ s.running, c.desired ≠ [] ∧ ¬ HoldsExactly s.store name c.desired ∧
      s.writer.admits c.key now = false
  | _ => False

def newest (s : System F) : Option Change := s.queue.getLast?.or s.running

/-- The set of the host is on its way to the records, or has arrived there. -/
structure Carried (host name : Str) (hist : List SysEvent) (s : System F) : Prop where
  enabled : s.writer.cfg.enabled = true
  live : s.writer.cfg.dryRun = false
  records : HostRecords s.writer.cfg.eligible name s.store
  plain : ∀ c, c ∈ s.queue ∨ s.running = some c → ∀ x ∈ c.addrs, Plain x
  entry : ∀ e, s.cache.hosts.lookup host = some e →
    e.notified = trustedKey e.addrs ∧ ∀ x ∈ e.addrs, Plain x
  way : ∀ e, s.cache.hosts.lookup host = some e → match s.newest with
    | some c => c.addrs = sortAddrs e.addrs
    | none => (Change.mk host (sortAddrs e.addrs)).desired ≠ [] →
      HoldsExactly s.store name (Change.mk host (sortAddrs e.addrs)).desired
  last : ∀ a, lastAnnouncement hist = some a → a.addrs ≠ [] →
    ∃ e, s.cache.hosts.lookup host = some e ∧ ∀ x ∈ a.addrs, x ∈ e.addrs

theorem getLast?_submit (queue : List Change) (c : Change) :
    (submit queue c).getLast? = some c := by
  unfold submit
  split_ifs <;> simp

theorem plain_desired {c : Change} (h : ∀ x ∈ c.addrs, Plain x) : ∀ x ∈ c.desired, Plain x := by
  intro x hx
  obtain ⟨y, hy, rfl⟩ := List.mem_map.mp hx
  have hplain := h y (List.mem_of_mem_filter hy)
  rwa [hplain.2.1]

theorem mem_submit {queue : List Change} {c d : Change} (h : c ∈ submit queue d) :
    c ∈ queue ∨ c = d := by
  unfold submit at h
  split_ifs at h
  · simpa using h
  · rcases List.mem_append.mp h with h | h
    · exact Or.inl (List.mem_of_mem_tail h)
    · exact Or.inr (List.mem_singleton.mp h)

theorem mem_foldl_submit {queue : List Change} {calls : List Call} {c : Change}
    (h : c ∈ calls.foldl (fun q call => submit q ⟨call.1, call.2⟩) queue) :
    c ∈ queue ∨ (c.host, c.addrs) ∈ calls := by
  induction calls generalizing queue with
  | nil => exact Or.inl h
  | cons call calls ih =>
    rcases ih h with h | h
    · rcases mem_submit h with h | rfl
      · exact Or.inl h
      · exact Or.inr List.mem_cons_self
    · exact Or.inr (List.mem_cons_of_mem _ h)

theorem lastAnnouncement_concat (hist : List SysEvent) (ev : SysEvent) :
    lastAnnouncement (hist ++ [ev]) = ev.announcement.or (lastAnnouncement hist) := by
  rw [lastAnnouncement, List.filterMap_append, List.getLast?_append]
  cases hev : ev.announcement <;> simp [hev, lastAnnouncement]

section Announcing

variable {a : Announcement} {now : Time} {trust : Trust} {ord : Order}
  (hc : Carried a.host name hist s) (hpl : ∀ x ∈ a.addrs, Plain x)

include hc hpl in
theorem plain_addrsAfter : ∀ x ∈ s.cache.addrsAfter a now, Plain x := by
  intro x hx
  rcases Cache.mem_addrsAfter.mp hx with hx | ⟨e, he, -, hx⟩
  · exact hpl x hx
  · exact (hc.entry e he).2 x hx

include hc hpl in
theorem not_collides : ¬ s.cache.Collides a now := by
  rintro ⟨e, he, hkey, hne⟩
  have hplain := @plain_addrsAfter F s hist name a now hc hpl
  exact hne (sortAddrs_eq_of_trustedKey_eq (fun x hx => ⟨(hplain x hx).1, (hplain x hx).2.2⟩)
    (fun x hx => ⟨((hc.entry e he).2 x hx).1, ((hc.entry e he).2 x hx).2.2⟩) hkey)

variable [Float64 F]

include hc hpl in
theorem way_announce (ht : trust.triggersDDNS = true)
    (hs : step ids s (.announce a now trust ord) = some s') {e : MDNS.Entry}
    (he : s'.cache.hosts.lookup a.host = some e) :
    match s'.newest with
    | some c => c.addrs = sortAddrs e.addrs
    | none => (Change.mk a.host (sortAddrs e.addrs)).desired ≠ [] →
      HoldsExactly s'.store name (Change.mk a.host (sortAddrs e.addrs)).desired := by
  have hn := fun e he => (hc.entry e he).1
  obtain rfl := Option.some.inj hs
  by_cases halt : s.cache.Alters a now trust ord
  · have h₀ : ¬ (a.host = [] || a.addrs = []) = true := by simp [halt.1, halt.2.1]
    obtain ⟨l, hl⟩ := Cache.calls_apply_of_changed ht ((Cache.apply_changed_iff_alters hn).mpr halt)
    simp only [newest, hl, List.foldl_append, List.foldl_cons, List.foldl_nil, getLast?_submit,
      Option.some_or]
    rw [(Cache.lookup_apply_host h₀ he).1]
  · obtain ⟨hcalls, -, e₀, he₀, hset⟩ := Cache.apply_of_not_alters hn halt (not_collides hc hpl) he
    simp only [newest, hcalls, List.foldl_nil]
    rw [hset]
    exact hc.way e₀ he₀

include hc hpl in
theorem carried_announce (hhost : a.host ≠ []) (ht : trust.triggersDDNS = true)
    (hs : step ids s (.announce a now trust ord) = some s') :
    Carried a.host name (hist ++ [.announce a now trust ord]) s' := by
  have hway := fun e (he : s'.cache.hosts.lookup a.host = some e) =>
    way_announce hc hpl ht hs he
  obtain rfl := Option.some.inj hs
  have hplain := @plain_addrsAfter F s hist name a now hc hpl
  refine ⟨hc.enabled, hc.live, hc.records, ?_, ?_, hway, ?_⟩
  · rintro c (hm | hm) x hx
    · rcases mem_foldl_submit hm with hm | hm
      · exact hc.plain c (Or.inl hm) x hx
      · rcases Cache.mem_calls_apply hm with hnil | ⟨-, -, -, hcall⟩
        · rw [show c.addrs = [] from hnil] at hx
          cases hx
        · rw [(Prod.mk.inj hcall).2] at hx
          exact hplain x (mem_sortAddrs.mp hx)
    · exact hc.plain c (Or.inr hm) x hx
  · intro e he
    rcases Cache.lookup_apply he with ⟨-, haddrs, hnot⟩ | he
    · exact ⟨hnot, haddrs ▸ hplain⟩
    · exact hc.entry e he
  · intro a' ha' hne
    rw [lastAnnouncement_concat] at ha'
    obtain rfl := Option.some.inj ha'
    have h₀ : ¬ (a.host = [] || a.addrs = []) = true := by simp [hhost, hne]
    have he := @Cache.lookup_apply_eq s.cache a now trust ord h₀
    refine ⟨_, he, fun x hx => ?_⟩
    rw [(Cache.lookup_apply_host h₀ he).1]
    exact Cache.mem_addrsAfter.mpr (Or.inl hx)

end Announcing

theorem carried_take [Float64 F] (hc : Carried host name hist s) (hs : step ids s .take = some s') :
    Carried host name (hist ++ [.take]) s' := by
  simp only [step] at hs
  split at hs
  next c rest hrun hqueue =>
    obtain rfl := Option.some.inj hs
    have hnew : s.newest = newest { s with queue := rest, running := some c } := by
      simp only [newest, hrun, hqueue]
      cases rest with
      | nil => rfl
      | cons d rest =>
        rw [List.getLast?_cons_cons, List.getLast?_cons]
        rfl
    refine ⟨hc.enabled, hc.live, hc.records, ?_, hc.entry, ?_, ?_⟩
    · rintro d (hd | hd)
      · exact hc.plain d (Or.inl (hqueue ▸ List.mem_cons_of_mem _ hd))
      · obtain rfl := Option.some.inj hd
        exact hc.plain c (Or.inl (hqueue ▸ List.mem_cons_self))
    · rw [← hnew]
      exact hc.way
    · rw [lastAnnouncement_concat]
      exact hc.last
  next => cases hs

theorem carried_finish [Float64 F] {now : Time} {sortAdded : SliceSort Addr.string}
    {sortDeleted : SliceSort Model.RR.content} (hc : Carried host name hist s)
    (hr : ¬ s.Refuses name (.finish now sortAdded sortDeleted))
    (hs : step ids s (.finish now sortAdded sortDeleted) = some s') :
    Carried host name (hist ++ [.finish now sortAdded sortDeleted]) s' := by
  obtain ⟨c, hrun, rfl⟩ := Option.map_eq_some_iff.mp hs
  have hplain := hc.plain c (Or.inr hrun)
  have hcfg := @Writer.reconcile_cfg F _ s.writer (s.request c now sortAdded sortDeleted)
  obtain ⟨hrec, hexact⟩ := @Writer.reconcile_store F _ s.writer
    (s.request c now sortAdded sortDeleted) ids name s.store hc.enabled hc.live hc.records rfl rfl
    (plain_desired hplain)
  refine ⟨by rw [hcfg]; exact hc.enabled, by rw [hcfg]; exact hc.live, by rw [hcfg]; exact hrec,
    ?_, hc.entry, ?_, ?_⟩
  · rintro d (hd | hd)
    · exact hc.plain d (Or.inl hd)
    · cases hd
  · intro e he
    have hway := hc.way e he
    rcases hq : s.queue.getLast? with _ | d
    · simp only [newest, hq, Option.none_or, hrun] at hway ⊢
      rw [← hway]
      intro hne
      refine hexact hne ?_
      by_contra hno
      push Not at hno
      have hadm := Bool.eq_false_iff.mpr hno.2
      exact hr ⟨List.getLast?_eq_none_iff.mp hq, c, hrun, hne, hno.1, hadm⟩
    · simpa only [newest, hq, Option.some_or] using hway
  · rw [lastAnnouncement_concat]
    exact hc.last

variable [Float64 F]

theorem step_carried {ev : SysEvent} (hhost : host ≠ []) (hc : Carried host name hist s)
    (hev : ev.ForHost host) (hr : ¬ s.Refuses name ev) (hs : step ids s ev = some s') :
    Carried host name (hist ++ [ev]) s' := by
  cases ev with
  | announce a now trust ord =>
    obtain ⟨rfl, ht, hpl⟩ := hev
    exact carried_announce hc hpl hhost ht hs
  | take => exact carried_take hc hs
  | finish now sortAdded sortDeleted => exact carried_finish hc hr hs

def start (cfg : Config) (t₀ : Time) (c : Cache) (store : List Model.RR) : System F where
  cache := c
  writer := Writer.new cfg t₀
  store := store

theorem carried_start {cfg : Config} {t₀ : Time} {store : List Model.RR} {sg gg tg : Duration}
    {mt : ℤ} (he : cfg.enabled = true) (hd : cfg.dryRun = false)
    (hrec : HostRecords cfg.eligible name store) :
    Carried host name [] (start cfg t₀ (Cache.empty sg gg tg mt) store : System F) := by
  have hne : cfg.eligible.entries ≠ [] := by
    intro hnil
    have hl := hrec.listed
    rw [Map.entries_eq_nil_iff.mp hnil] at hl
    cases hl
  refine ⟨he, ?_, hrec, ?_, ?_, ?_, ?_⟩
  · simp [start, Writer.new, hd, hne]
  · rintro c (hc | hc)
    · cases hc
    · cases hc
  · intro e he
    simp [start, Cache.empty] at he
  · intro e he
    simp [start, Cache.empty] at he
  · intro a ha
    cases ha

/-- When a live daemon that never refuses the newest change is idle, and the last announcement of
the host has a public address, the host's records hold exactly the public addresses of its
cached set. -/
theorem idle_propagated (ids : IdSource) (cfg : Config) (t₀ : Time)
    (staleGrace goodbyeGrace trustedGrace : Duration) (maxTrusted : ℤ) (store : List Model.RR)
    (host name : Str) (es : List SysEvent) (s : System F) (a : Announcement) (hhost : host ≠ [])
    (he : cfg.enabled = true) (hd : cfg.dryRun = false)
    (hrec : HostRecords cfg.eligible name store) (hes : ∀ ev ∈ es, ev.ForHost host)
    (hok : Runs.Along (step ids)
      (start (F := F) cfg t₀ (Cache.empty staleGrace goodbyeGrace trustedGrace maxTrusted) store)
      (fun _ s ev => ¬ s.Refuses name ev) es)
    (hrun : Runs.run (step ids)
      (start cfg t₀ (Cache.empty staleGrace goodbyeGrace trustedGrace maxTrusted) store) es =
      some s)
    (hqueue : s.queue = []) (hidle : s.running = none) (ha : lastAnnouncement es = some a)
    (hpub : ∃ x ∈ a.addrs, isDDNSEligible x = true) :
    ∃ e, s.cache.hosts.lookup host = some e ∧
      ∀ t, Holds s.store name t ↔ ∃ x ∈ e.addrs, isDDNSEligible x = true ∧ x.string = t := by
  have hall : Runs.Along (step ids)
      (start (F := F) cfg t₀ (Cache.empty staleGrace goodbyeGrace trustedGrace maxTrusted) store)
      (fun _ s ev => ev.ForHost host ∧ ¬ s.Refuses name ev) es :=
    fun pre ev post s hpre hs => ⟨hes ev (by simp [hpre]), hok pre ev post s hpre hs⟩
  have hinv : Carried host name es s := Runs.inv_of_run (carried_start he hd hrec)
    (fun hist s ev s' h hev hs => step_carried hhost h hev.1 hev.2 hs) hall hrun
  obtain ⟨x, hx, hxp⟩ := hpub
  obtain ⟨e, hlook, hsub⟩ := hinv.last a ha (List.ne_nil_of_mem hx)
  have hdes : ∀ y, y ∈ (Change.mk host (sortAddrs e.addrs)).desired ↔
      y ∈ e.addrs ∧ isDDNSEligible y = true := by
    intro y
    have hmap : (Change.mk host (sortAddrs e.addrs)).desired =
        ((sortAddrs e.addrs).filter isDDNSEligible).map id :=
      List.map_congr_left fun z hz =>
        ((hinv.entry e hlook).2 z (mem_sortAddrs.mp (List.mem_of_mem_filter hz))).2.1
    rw [hmap, List.map_id, List.mem_filter, mem_sortAddrs]
  have hway := hinv.way e hlook
  simp only [newest, hqueue, hidle, List.getLast?_nil, Option.or_none] at hway
  have hexact := holdsExactly_iff.mp (hway (List.ne_nil_of_mem ((hdes x).mpr ⟨hsub x hx, hxp⟩)))
  refine ⟨e, hlook, fun t => ?_⟩
  rw [hexact, List.mem_map]
  simp only [hdes, and_assoc]

instance : DecidablePred (Refuses name s)
  | .announce _ _ _ _ => .isFalse not_false
  | .take => .isFalse not_false
  | .finish _ _ _ => by unfold Refuses; infer_instance

/-- A live writer that lets a minute pass between two writes. -/
def minuteConfig : Config where
  enabled := true
  rate := minute
  eligible := Map.ofList [("host.a".toList, true)]

def idleStart : System ℚ := start minuteConfig 0 (Cache.empty 0 0 0 1024) [hostA]

/-- The announcement of an address at an instant and its way through the writer. -/
def roundtrip (addr : Addr) (now : Time) : List SysEvent :=
  [.announce ⟨"host".toList, [addr], 120⟩ now .weak {}, .take, .finish now default default]

theorem hostRecords_hostA : HostRecords minuteConfig.eligible hostA.name [hostA] := by
  refine ⟨by decide, fun r hr => ?_, by decide, by decide⟩
  obtain rfl := List.mem_singleton.mp hr
  exact ⟨rfl, rfl, Or.inl rfl⟩

theorem roundtrip_propagated :
    ∃ s, Runs.run (step default) idleStart (roundtrip (.v4 0x09090909) 0) = some s ∧
      ∃ e, s.cache.hosts.lookup "host".toList = some e ∧
        ∀ t, Holds s.store hostA.name t ↔
          ∃ x ∈ e.addrs, isDDNSEligible x = true ∧ x.string = t := by
  refine ⟨_, rfl, idle_propagated default minuteConfig 0 0 0 0 1024 [hostA] "host".toList
    hostA.name (roundtrip (.v4 0x09090909) 0) _ ⟨"host".toList, [.v4 0x09090909], 120⟩ (by decide)
    rfl rfl hostRecords_hostA ?_ (by decide +kernel) rfl rfl rfl rfl ⟨_, List.mem_singleton_self _,
      by decide⟩⟩
  intro ev hev
  simp only [roundtrip, List.mem_cons, List.not_mem_nil, or_false] at hev
  rcases hev with rfl | rfl | rfl
  · refine ⟨rfl, rfl, fun x hx => ?_⟩
    obtain rfl := List.mem_singleton.mp hx
    exact ⟨rfl, rfl, rfl⟩
  · trivial
  · trivial

/-- The daemon after a second address within the minute. -/
def afterSecond : Option (System ℚ) :=
  Runs.run (step default) idleStart
    (roundtrip (.v4 0x09090909) 0 ++ roundtrip (.v4 0x08080808) (10 * second))

/-- The second change is refused: the daemon is idle and the record keeps the first address. -/
theorem refused_change_lost :
    afterSecond.map (fun s => (s.queue, s.running)) = some ([], none) ∧
      afterSecond.map (fun s => s.store.map Model.RR.content) = some ["9.9.9.9".toList] ∧
      afterSecond.map (fun s => (s.cache.hosts.lookup "host".toList).map fun e =>
        sortAddrs e.addrs) = some (some [.v4 0x08080808]) := by
  decide +kernel

end System

end SplitDNS.DDNS
