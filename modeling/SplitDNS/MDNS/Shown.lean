import SplitDNS.MDNS.Delivery
import SplitDNS.MDNS.Source

/-! # Announced addresses in the published view

A packet that brings no news does not publish, so its addresses are in the view
only if the view published last lists them. It does as long as no view is
published while an expired host is still in the cache; otherwise a host that
announces the same addresses again stays out of the view until the next tick.
-/

namespace SplitDNS.MDNS

open Go Go.Netip Go.Strings Dns Model

namespace Cache

variable {c : Cache} {now : Time} {trust : Trust} {ord : Order} {u : Update} {h : Str} {e : Entry}
  {v : MDNSView}

/-- The set of every host is the one it is marked with, and has no zones. -/
def Marked (c : Cache) : Prop :=
  ∀ h e, c.hosts.lookup h = some e → e.notified = trustedKey e.addrs ∧
    ∀ x ∈ e.addrs, x.isValid = true ∧ x.zone = []

/-- The view lists the addresses of every host in the cache. -/
def Listed (v : MDNSView) (c : Cache) : Prop :=
  ∀ h e, c.hosts.lookup h = some e → ∀ x ∈ e.addrs, Lists v h x

/-- The two entries of a host have the same addresses and the same mark. -/
def SameSet (e e₀ : Entry) : Prop := e.addrs = e₀.addrs ∧ e.notified = e₀.notified

theorem lookup_amend {host : Str} {f : Entry → Option Entry}
    (hf : ∀ e e', f e = some e' → SameSet e' e) :
    (∀ e, (c.amend host f).1.hosts.lookup h = some e →
      ∃ e₀, c.hosts.lookup h = some e₀ ∧ SameSet e e₀) ∧
    ∀ e₀, c.hosts.lookup h = some e₀ →
      ∃ e, (c.amend host f).1.hosts.lookup h = some e ∧ SameSet e e₀ := by
  unfold amend
  rcases hb : (c.hosts.lookup host).bind f with _ | e₁
  · exact ⟨fun e he => ⟨e, he, rfl, rfl⟩, fun e he => ⟨e, he, rfl, rfl⟩⟩
  · obtain ⟨e₂, hl, hf₂⟩ := Option.bind_eq_some_iff.mp hb
    dsimp only
    rw [Map.lookup_insert_eq_ite]
    by_cases hh : h = host
    · subst hh
      rw [if_pos rfl, hl]
      constructor
      · rintro e ⟨⟩
        exact ⟨e₂, rfl, hf e₂ e₁ hf₂⟩
      · rintro e₀ ⟨⟩
        exact ⟨e₁, rfl, hf e₂ e₁ hf₂⟩
    · rw [if_neg hh]
      exact ⟨fun e he => ⟨e, he, rfl, rfl⟩, fun e he => ⟨e, he, rfl, rfl⟩⟩

theorem lookup_update_about (hu : (∃ svc, u = .service svc) ∨ ∃ svc, u = .info svc) :
    (∀ e, (c.update now trust ord u).1.hosts.lookup h = some e →
      ∃ e₀, c.hosts.lookup h = some e₀ ∧ SameSet e e₀) ∧
    ∀ e₀, c.hosts.lookup h = some e₀ →
      ∃ e, (c.update now trust ord u).1.hosts.lookup h = some e ∧ SameSet e e₀ := by
  rcases hu with ⟨svc, rfl⟩ | ⟨svc, rfl⟩
  · unfold update applyService
    dsimp only
    by_cases hskip : (svc.host = [] || svc.type = []) = true
    · rw [if_pos hskip]
      exact ⟨fun e he => ⟨e, he, rfl, rfl⟩, fun e he => ⟨e, he, rfl, rfl⟩⟩
    · rw [if_neg hskip]
      refine lookup_amend fun e e' he => ?_
      split_ifs at he
      cases he
      exact ⟨rfl, rfl⟩
  · unfold update applyInfo
    dsimp only
    by_cases hskip : (svc.host = [] || svc.desc = []) = true
    · rw [if_pos hskip]
      exact ⟨fun e he => ⟨e, he, rfl, rfl⟩, fun e he => ⟨e, he, rfl, rfl⟩⟩
    · rw [if_neg hskip]
      refine lookup_amend fun e e' he => ?_
      split_ifs at he
      cases he
      exact ⟨rfl, rfl⟩

theorem mem_of_apply_unchanged {a : Announcement} (hm : c.Marked) (ha : a.Proper)
    (hch : (c.apply a now trust ord).changed = false)
    (he : (c.apply a now trust ord).cache.hosts.lookup h = some e) :
    ∃ e₀, c.hosts.lookup h = some e₀ ∧ ∀ x ∈ e.addrs, x ∈ e₀.addrs := by
  rcases lookup_apply he with ⟨rfl, haddrs, -⟩ | he₀
  · have hn : ∀ e, c.hosts.lookup a.host = some e → e.notified = trustedKey e.addrs :=
      fun e he => (hm a.host e he).1
    have halt : ¬ c.Alters a now trust ord := by
      rw [← apply_changed_iff_alters hn, hch]
      exact Bool.false_ne_true
    have hcol : ¬ c.Collides a now := by
      rintro ⟨e₁, he₁, hkey, hset⟩
      refine hset (sortAddrs_eq_of_trustedKey_eq (fun x hx => ?_) (hm a.host e₁ he₁).2 hkey)
      rcases mem_addrsAfter.mp hx with hx | ⟨e₂, he₂, -, hx⟩
      · exact ha.2 x hx
      · exact (hm a.host e₂ he₂).2 x hx
    obtain ⟨-, -, e₀, he₀, hset⟩ := apply_of_not_alters hn halt hcol he
    refine ⟨e₀, he₀, fun x hx => ?_⟩
    rw [← mem_sortAddrs, ← hset, mem_sortAddrs]
    exact hx
  · exact ⟨e, he₀, fun x hx => hx⟩

theorem update_marked (hm : c.Marked) (hu : ∀ a, u = .apply a → a.Proper) :
    (c.update now trust ord u).1.Marked := by
  intro h e he
  cases u with
  | apply a =>
    rcases lookup_apply he with ⟨rfl, haddrs, hnot⟩ | he
    · refine ⟨hnot, fun x hx => ?_⟩
      rw [haddrs] at hx
      rcases mem_addrsAfter.mp hx with hx | ⟨e₂, he₂, -, hx⟩
      · exact (hu a rfl).2 x hx
      · exact (hm a.host e₂ he₂).2 x hx
    · exact hm h e he
  | service svc =>
    obtain ⟨e₀, he₀, haddrs, hnot⟩ := (lookup_update_about (Or.inl ⟨svc, rfl⟩)).1 e he
    rw [haddrs, hnot]
    exact hm h e₀ he₀
  | info svc =>
    obtain ⟨e₀, he₀, haddrs, hnot⟩ := (lookup_update_about (Or.inr ⟨svc, rfl⟩)).1 e he
    rw [haddrs, hnot]
    exact hm h e₀ he₀
  | expire => exact hm h e (lookup_expire he)

theorem update_listed (hm : c.Marked) (hu : ∀ a, u = .apply a → a.Proper)
    (hnews : (c.update now trust ord u).2 = false) (hl : Listed v c) :
    Listed v (c.update now trust ord u).1 := by
  intro h e he x hx
  cases u with
  | apply a =>
    obtain ⟨e₀, he₀, hsub⟩ := mem_of_apply_unchanged hm (hu a rfl) hnews he
    exact hl h e₀ he₀ x (hsub x hx)
  | service svc =>
    obtain ⟨e₀, he₀, haddrs, -⟩ := (lookup_update_about (Or.inl ⟨svc, rfl⟩)).1 e he
    exact hl h e₀ he₀ x (haddrs ▸ hx)
  | info svc =>
    obtain ⟨e₀, he₀, haddrs, -⟩ := (lookup_update_about (Or.inr ⟨svc, rfl⟩)).1 e he
    exact hl h e₀ he₀ x (haddrs ▸ hx)
  | expire => cases hnews

theorem updateAll_listed {us : List Update} (hm : c.Marked) (hl : Listed v c)
    (hus : ∀ a, .apply a ∈ us → a.Proper) :
    (c.updateAll now trust ord us).1.Marked ∧
      ((c.updateAll now trust ord us).2 = false → Listed v (c.updateAll now trust ord us).1) := by
  unfold updateAll
  refine List.foldlRecOn (motive := fun p : Cache × Bool =>
      p.1.Marked ∧ (p.2 = false → Listed v p.1))
    us _ ⟨hm, fun _ => hl⟩ ?_
  rintro ⟨c, changed⟩ ⟨hm, hl⟩ u hu
  have hproper : ∀ a, u = .apply a → a.Proper := fun a ha => hus a (ha ▸ hu)
  refine ⟨update_marked hm hproper, fun hnews => ?_⟩
  obtain ⟨hch, hnews⟩ := Bool.or_eq_false_iff.mp hnews
  exact update_listed hm hproper hnews (hl hch)

def Has (c : Cache) (h : Str) (x : Addr) : Prop := ∃ e, c.hosts.lookup h = some e ∧ x ∈ e.addrs

theorem has_apply {a : Announcement} {x : Addr} (ha : a.Proper) (hx : x ∈ a.addrs) :
    (c.apply a now trust ord).cache.Has a.host x := by
  have h₀ : ¬ (a.host = [] || a.addrs = []) = true := by
    simpa using ⟨ha.1, List.ne_nil_of_mem hx⟩
  refine ⟨(diffLocked (c.placed a now ord.hosts).2.2).1, ?_, ?_⟩
  · rw [apply_hosts h₀]
    exact AList.lookup_insert _
  · rw [diffLocked_addrs, placed_addrs, mem_addrsAfter]
    exact Or.inl hx

theorem has_updateAll {p : Option Msg} {a : Announcement} {x : Addr} (hp : parsePacket p = [a])
    (hx : x ∈ a.addrs) (tier : Trust) :
    (c.updateAll now trust ord (Drive.packet p tier).updates).1.Has a.host x := by
  have ha : a.Proper := parsePacket_proper p a (by rw [hp]; exact List.mem_cons_self)
  rw [Drive.updates, hp, updateAll, List.foldl_append]
  refine List.foldlRecOn (motive := fun q : Cache × Bool => q.1.Has a.host x) _ _
    (has_apply ha hx) ?_
  rintro ⟨c, changed⟩ ⟨e, he, hmem⟩ u hu
  obtain ⟨svc, -, hu⟩ := List.mem_flatMap.mp hu
  have habout : (∃ svc, u = .service svc) ∨ ∃ svc, u = .info svc := by
    rcases List.mem_cons.mp hu with rfl | hu
    · exact Or.inl ⟨svc, rfl⟩
    · exact Or.inr ⟨svc, List.mem_singleton.mp hu⟩
  obtain ⟨e', he', haddrs, -⟩ := (lookup_update_about habout).2 e he
  exact ⟨e', he', haddrs ▸ hmem⟩

end Cache

namespace Source

variable {s : Source} {ev : SourceEvent}

/-- If a view is published, no host of the cache is past its expiry then, unless its addresses are
trusted ones. -/
def Lasting (s : Source) (ev : SourceEvent) : Prop :=
  (s.updated ev).2 = true → ∀ h e, (s.updated ev).1.hosts.lookup h = some e →
    ev.pub ≤ e.expiry ∨ ∀ x ∈ e.addrs, x ∈ (s.updated ev).1.trustedAddrsLocked h ev.pub

/-- After a packet with one announcement that is no goodbye, the published view lists all of its
addresses. -/
def Shows (s : Source) (ev : SourceEvent) : Prop :=
  ∀ p trust a, ev.drive = .packet p trust → parsePacket p = [a] → 0 < a.ttl →
    ∀ x ∈ a.addrs, Lists (s.step ev).view a.host x

/-- The view that is published lists what is in the cache. -/
structure Current (s : Source) : Prop where
  marked : s.cache.Marked
  listed : Cache.Listed s.view s.cache

theorem proper_of_mem_updates {d : Drive} {a : Announcement} (ha : .apply a ∈ d.updates) :
    a.Proper := by
  cases d with
  | packet p trust =>
    rcases Drive.mem_updates_packet.mp ha with ⟨a', ha', heq⟩ | ⟨svc, -, heq | heq⟩
    · cases heq
      exact parsePacket_proper p a ha'
    · cases heq
    · cases heq
  | tick => simp [Drive.updates] at ha

theorem step_current (hs : s.Current) (hev : Lasting s ev) : (s.step ev).Current := by
  have hupdated : (s.updated ev).1.Marked ∧
      ((s.updated ev).2 = false → Cache.Listed s.view (s.updated ev).1) :=
    Cache.updateAll_listed hs.marked hs.listed fun a ha => proper_of_mem_updates ha
  refine ⟨hupdated.1, ?_⟩
  unfold step
  dsimp only
  by_cases hch : (s.updated ev).2 = true
  · rw [if_pos hch]
    intro h e he x hx
    refine Cache.lists_view ?_ ev.visit
    rcases hev hch h e he with hle | htrusted
    · exact Or.inr ⟨e, he, hle, hx⟩
    · exact Or.inl (htrusted x hx)
  · rw [if_neg hch]
    exact hupdated.2 (Bool.eq_false_iff.mpr hch)

theorem shows_of_current (hs : s.Current) (hev : Lasting s ev) : Shows s ev := by
  rintro p trust a hdrive hp - x hx
  obtain ⟨e, he, hmem⟩ : (s.updated ev).1.Has a.host x := by
    rw [updated, hdrive]
    exact Cache.has_updateAll hp hx trust
  exact (step_current hs hev).listed a.host e he x hmem

/-- Along every run in which no view is published while an expired host is in the cache, the view
lists the addresses of every announcement after its packet. -/
theorem always_shows (staleGrace goodbyeGrace trustedGrace : Duration) (maxTrusted : ℤ) (now : Time)
    (visit : RangeOrder Str Unit) (es : List SourceEvent)
    (h : Runs.Always step (new staleGrace goodbyeGrace trustedGrace maxTrusted now visit)
      (fun _ s ev => Lasting s ev) es) :
    Runs.Always step (new staleGrace goodbyeGrace trustedGrace maxTrusted now visit)
      (fun _ s ev => Shows s ev) es := by
  have h₀ : (new staleGrace goodbyeGrace trustedGrace maxTrusted now visit).Current := by
    constructor <;> intro h e he <;> simp [new, Cache.empty] at he
  exact Runs.always_of_inv h₀ (fun _ _ _ => step_current) (fun _ _ _ => shows_of_current) h

def announce (name : Str) (ttl : UInt32) (b : BitVec 32) (now : Time) : SourceEvent :=
  { drive := .announcing name ttl b, now, pub := now }

theorem shows_first_announcement :
    Runs.Always step (new 0 0 0 1024 0 default) (fun _ s ev => Shows s ev)
      [announce ['a', '.'] 120 1 0] := by
  refine always_shows 0 0 0 1024 0 default _ (Runs.always_cons.mpr ⟨?_, Runs.always_nil⟩)
  rintro - h e he
  rcases eq_or_ne h ['a'] with rfl | hh
  · cases he
    exact Or.inl (by decide)
  · change (AList.insert ['a'] _ (∅ : Map Str Entry)).lookup h = some e at he
    rw [AList.lookup_insert_ne hh] at he
    cases he

/-- A host expires, another one is announced, and the first one announces itself again before the
next tick: its packet brings no news, and the view stays without it. -/
theorem reannouncement_not_shown :
    let es := [announce ['a', '.'] 1 1 0, announce ['b', '.'] 120 2 (2 * second)]
    let ev := announce ['a', '.'] 120 1 (3 * second)
    ¬ Shows (es.foldl step (new 0 0 0 1024 0 default)) ev := by
  intro es ev h
  refine absurd (h _ _ ⟨['a'], [.v4 1], 120⟩ rfl (by decide) (by decide) (.v4 1) (by decide)) ?_
  decide

end Source

end SplitDNS.MDNS
