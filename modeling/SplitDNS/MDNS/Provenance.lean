import SplitDNS.MDNS.Cache
import SplitDNS.Runs.Basic

/-! # Provenance of announced addresses

Every cached address was announced for its host, and every address handed to the
change callback is either of the announcement that causes the call or still
cached from the same burst. The callback therefore sees an address that only
untrusted packets announced exactly when a trusted packet is united with it.
-/

namespace SplitDNS.MDNS

open Go Go.Netip

section Sets

variable {s : KeySet Addr} {l : List Addr} {a : Addr}

theorem mem_insertAll : a ∈ insertAll s l ↔ a ∈ l ∨ a ∈ s := by
  induction l generalizing s with
  | nil => simp [insertAll]
  | cons b l ih =>
    rw [insertAll, List.foldl_cons, ← insertAll, ih, AList.mem_insert, List.mem_cons]
    tauto

theorem mem_sortAddrs : a ∈ sortAddrs s ↔ a ∈ s := by
  rw [sortAddrs, List.mem_insertionSort, ← AList.mem_keys]

theorem mem_foldAddrs {last now : Time} :
    a ∈ foldAddrs s last now l ↔ a ∈ l ∨ (now - last ≤ burstWindow ∧ a ∈ s) := by
  rw [foldAddrs, mem_insertAll]
  split_ifs with h
  · simp [AList.notMem_empty, not_le.mpr h]
  · simp [not_lt.mp h]

end Sets

theorem diffLocked_set (e : Entry) : (diffLocked e).2.2 = sortAddrs e.addrs := by
  simp only [diffLocked]
  split_ifs <;> rfl

theorem diffLocked_news (e : Entry) :
    (diffLocked e).2.1 = true ↔ trustedKey e.addrs ≠ e.notified := by
  simp only [diffLocked, trustedKey]
  split_ifs with h <;> simp [h]

theorem diffLocked_entry (e : Entry) :
    (diffLocked e).1 = { e with notified := trustedKey e.addrs } := by
  simp only [diffLocked, trustedKey]
  split_ifs with h
  · rw [h]
  · rfl

theorem diffLocked_notified (e : Entry) : (diffLocked e).1.notified = trustedKey e.addrs := by
  rw [diffLocked_entry]

theorem diffLocked_addrs (e : Entry) : (diffLocked e).1.addrs = e.addrs := by
  rw [diffLocked_entry]

namespace Cache

variable {c : Cache} {a : Announcement} {now : Time} {trust : Trust} {ord : Order}

theorem refresh_addrs (c : Cache) (e : Entry) (s : KeySet Addr) (ttl : UInt32) (now : Time) :
    (c.refresh e s ttl now).addrs = s := by
  simp only [refresh]
  split_ifs <;> rfl

theorem refresh_notified (c : Cache) (e : Entry) (s : KeySet Addr) (ttl : UInt32) (now : Time) :
    (c.refresh e s ttl now).notified = e.notified := by
  simp only [refresh]
  split_ifs <;> rfl

def addrsAfter (c : Cache) (a : Announcement) (now : Time) : KeySet Addr :=
  match c.hosts.lookup a.host with
  | some e => foldAddrs e.addrs e.lastSeen now a.addrs
  | none => insertAll ∅ a.addrs

theorem mem_addrsAfter {x : Addr} :
    x ∈ c.addrsAfter a now ↔ x ∈ a.addrs ∨
      ∃ e, c.hosts.lookup a.host = some e ∧ now - e.lastSeen ≤ burstWindow ∧ x ∈ e.addrs := by
  unfold addrsAfter
  split <;> rename_i h
  · simp [mem_foldAddrs, h]
  · simp [mem_insertAll, AList.notMem_empty, h]

theorem lookup_makeRoom {ord : RangeOrder Str Entry} {h : Str} {e : Entry}
    (he : (c.makeRoom ord).1.lookup h = some e) : c.hosts.lookup h = some e := by
  simp only [makeRoom, evictOldestLocked] at he
  split_ifs at he
  · exact (Map.lookup_erase_eq_some he).2
  · exact he
  · exact he

theorem lookup_placed {ord : RangeOrder Str Entry} {h : Str} {e : Entry}
    (he : (c.placed a now ord).1.lookup h = some e) : c.hosts.lookup h = some e := by
  unfold placed at he
  split at he
  · exact he
  · exact lookup_makeRoom he

theorem placed_addrs (ord : RangeOrder Str Entry) :
    (c.placed a now ord).2.2.addrs = c.addrsAfter a now := by
  rcases h : c.hosts.lookup a.host with _ | e <;> simp only [placed, addrsAfter, h, refresh_addrs]

theorem apply_hosts (h : ¬ (a.host = [] || a.addrs = []) = true) :
    (c.apply a now trust ord).cache.hosts =
      (c.placed a now ord.hosts).1.insert a.host (diffLocked (c.placed a now ord.hosts).2.2).1 := by
  rw [apply, if_neg h]

theorem apply_calls (h : ¬ (a.host = [] || a.addrs = []) = true) :
    (c.apply a now trust ord).calls =
      if trust.triggersDDNS then
        (if (c.placed a now ord.hosts).2.1 ≠ [] then
          [((c.placed a now ord.hosts).2.1, [])] else []) ++
        (if (c.apply a now trust ord).changed then
          [(a.host, sortAddrs (c.addrsAfter a now))] else [])
      else [] := by
  rw [apply, if_neg h, ← placed_addrs ord.hosts, ← diffLocked_set]

theorem apply_changed (h : ¬ (a.host = [] || a.addrs = []) = true) :
    (c.apply a now trust ord).changed =
      ((diffLocked (c.placed a now ord.hosts).2.2).2.1 ||
        (trust.isStrong && (c.applyTrustedLocked a now ord.trusted).2)) := by
  rw [apply, if_neg h]
  cases trust.isStrong <;> rfl

theorem apply_ignored (h : (a.host = [] || a.addrs = []) = true) :
    c.apply a now trust ord = ⟨c, false, []⟩ := by
  rw [apply, if_pos h]

theorem lookup_apply_eq (h₀ : ¬ (a.host = [] || a.addrs = []) = true) :
    (c.apply a now trust ord).cache.hosts.lookup a.host =
      some (diffLocked (c.placed a now ord.hosts).2.2).1 := by
  rw [apply_hosts h₀, AList.lookup_insert]

theorem lookup_apply_host (h₀ : ¬ (a.host = [] || a.addrs = []) = true) {e : Entry}
    (he : (c.apply a now trust ord).cache.hosts.lookup a.host = some e) :
    e.addrs = c.addrsAfter a now ∧ e.notified = trustedKey e.addrs := by
  rw [lookup_apply_eq h₀] at he
  cases he
  exact ⟨by rw [diffLocked_addrs, placed_addrs], by rw [diffLocked_notified, diffLocked_addrs]⟩

theorem lookup_apply {h : Str} {e : Entry}
    (he : (c.apply a now trust ord).cache.hosts.lookup h = some e) :
    (h = a.host ∧ e.addrs = c.addrsAfter a now ∧ e.notified = trustedKey e.addrs) ∨
      c.hosts.lookup h = some e := by
  by_cases h₀ : (a.host = [] || a.addrs = []) = true
  · rw [apply_ignored h₀] at he
    exact Or.inr he
  · rcases eq_or_ne h a.host with rfl | hh
    · exact Or.inl ⟨rfl, lookup_apply_host h₀ he⟩
    · rw [apply_hosts h₀, AList.lookup_insert_ne hh] at he
      exact Or.inr (lookup_placed he)

theorem mem_calls_apply {call : Call} (hc : call ∈ (c.apply a now trust ord).calls) :
    call.2 = [] ∨ (¬ (a.host = [] || a.addrs = []) = true ∧ trust.triggersDDNS = true ∧
      (c.apply a now trust ord).changed = true ∧
        call = (a.host, sortAddrs (c.addrsAfter a now))) := by
  by_cases h₀ : (a.host = [] || a.addrs = []) = true
  · simp [apply_ignored h₀] at hc
  · rw [apply_calls h₀] at hc
    split_ifs at hc with ht hv hch hch <;> simp at hc
    · rcases hc with rfl | rfl
      · exact Or.inl rfl
      · exact Or.inr ⟨h₀, ht, hch, rfl⟩
    · exact Or.inl (by rw [hc])
    · exact Or.inr ⟨h₀, ht, hch, hc⟩

theorem calls_apply_of_changed (ht : trust.triggersDDNS = true)
    (hc : (c.apply a now trust ord).changed = true) :
    ∃ l, (c.apply a now trust ord).calls = l ++ [(a.host, sortAddrs (c.addrsAfter a now))] := by
  by_cases h₀ : (a.host = [] || a.addrs = []) = true
  · simp [apply_ignored h₀] at hc
  · rw [apply_calls h₀, if_pos ht, if_pos hc]
    exact ⟨_, rfl⟩

theorem call_mem_apply (ht : trust.triggersDDNS = true)
    (hc : (c.apply a now trust ord).changed = true) :
    (a.host, sortAddrs (c.addrsAfter a now)) ∈ (c.apply a now trust ord).calls := by
  obtain ⟨l, hl⟩ := calls_apply_of_changed ht hc
  rw [hl]
  simp

theorem lookup_expire {ord : RangeOrder Str Entry} {h : Str} {e : Entry}
    (he : (c.expire now ord).1.hosts.lookup h = some e) : c.hosts.lookup h = some e := by
  rw [expire, Map.lookup_foldl_erase] at he
  split_ifs at he
  exact he

theorem calls_expire {ord : RangeOrder Str Entry} {call : Call}
    (hc : call ∈ (c.expire now ord).2) : call.2 = [] := by
  simp only [expire, List.mem_map] at hc
  obtain ⟨h, -, rfl⟩ := hc
  rfl

end Cache

inductive Event where
  | apply (a : Announcement) (now : Time) (trust : Trust) (ord : Order)
  | expire (now : Time) (ord : RangeOrder Str Entry)

namespace Event

def Announces (h : Str) (x : Addr) : Event → Prop
  | apply a _ _ _ => a.host = h ∧ x ∈ a.addrs
  | expire _ _ => False

/-- The announcement of an address for a host by a tier that may trigger updates. -/
def Vouches (h : Str) (x : Addr) : Event → Prop
  | apply a _ trust _ => trust.triggersDDNS = true ∧ a.host = h ∧ x ∈ a.addrs
  | expire _ _ => False

instance (h : Str) (x : Addr) : DecidablePred (Announces h x)
  | apply _ _ _ _ => inferInstanceAs (Decidable (_ ∧ _))
  | expire _ _ => inferInstanceAs (Decidable False)

instance (h : Str) (x : Addr) : DecidablePred (Vouches h x)
  | apply _ _ _ _ => inferInstanceAs (Decidable (_ ∧ _ ∧ _))
  | expire _ _ => inferInstanceAs (Decidable False)

end Event

namespace Cache

variable {c : Cache} {a : Announcement} {now : Time} {trust : Trust} {ord : Order}

def step (c : Cache) : Event → Cache
  | .apply a now trust ord => (c.apply a now trust ord).cache
  | .expire now ord => (c.expire now ord).1

/-- The calls of the change callback made by one operation. -/
def calls (c : Cache) : Event → List Call
  | .apply a now trust ord => (c.apply a now trust ord).calls
  | .expire now ord => (c.expire now ord).2

def empty (staleGrace goodbyeGrace trustedGrace : Duration) (maxTrusted : ℤ) : Cache :=
  { staleGrace, goodbyeGrace, trustedGrace, maxTrusted }

/-- A trusted-enough announcement adds to its host's addresses, or to its trusted ones, within
the burst window of the last packet, while an address is cached that only untrusted packets
have announced so far. -/
def Leaks (hist : List Event) (c : Cache) : Event → Prop
  | .apply a now trust ord =>
    a.host ≠ [] ∧ a.addrs ≠ [] ∧ trust.triggersDDNS = true ∧
      ∃ e, c.hosts.lookup a.host = some e ∧ now - e.lastSeen ≤ burstWindow ∧
        (trustedKey (insertAll e.addrs a.addrs) ≠ trustedKey e.addrs ∨
          trust.isStrong = true ∧ (c.applyTrustedLocked a now ord.trusted).2 = true) ∧
        ∃ x ∈ e.addrs, x ∉ a.addrs ∧ (∃ ev ∈ hist, ev.Announces a.host x) ∧
          ∀ ev ∈ hist, ¬ ev.Vouches a.host x
  | .expire _ _ => False

/-- Every cached address was announced, and every cached set is the one last compared. -/
def Accounted (hist : List Event) (c : Cache) : Prop :=
  ∀ h e, c.hosts.lookup h = some e →
    e.notified = trustedKey e.addrs ∧ ∀ x ∈ e.addrs, ∃ ev ∈ hist, ev.Announces h x

theorem step_accounted {hist : List Event} (ev : Event) (hc : Accounted hist c) :
    Accounted (hist ++ [ev]) (c.step ev) := by
  have old : ∀ h e, c.hosts.lookup h = some e → ∀ x ∈ e.addrs,
      ∃ ev' ∈ hist ++ [ev], ev'.Announces h x := by
    intro h e he x hx
    obtain ⟨ev', hm, ha⟩ := (hc h e he).2 x hx
    exact ⟨ev', List.mem_append_left _ hm, ha⟩
  intro h e he
  cases ev with
  | expire now ord =>
    have he := lookup_expire he
    exact ⟨(hc h e he).1, old h e he⟩
  | apply a now trust ord =>
    rcases lookup_apply he with ⟨rfl, ha, hn⟩ | he
    · refine ⟨hn, fun x hx => ?_⟩
      rw [ha, mem_addrsAfter] at hx
      rcases hx with hx | ⟨e₀, he₀, -, hx⟩
      · exact ⟨_, List.mem_append_right _ (List.mem_singleton_self _), rfl, hx⟩
      · exact old _ e₀ he₀ x hx
    · exact ⟨(hc h e he).1, old h e he⟩

theorem run_accounted (sg gg tg : Duration) (mt : ℤ) (es : List Event) :
    Accounted es (es.foldl step (empty sg gg tg mt)) := by
  refine Runs.inv_foldl ?_ (fun hist c ev => step_accounted ev) es
  intro h e he
  simp [empty] at he

theorem apply_changed_of_lookup {e : Entry} (h : ¬ (a.host = [] || a.addrs = []) = true)
    (he : c.hosts.lookup a.host = some e) (hn : e.notified = trustedKey e.addrs) :
    (c.apply a now trust ord).changed = true ↔
      trustedKey (c.addrsAfter a now) ≠ trustedKey e.addrs ∨
        trust.isStrong = true ∧ (c.applyTrustedLocked a now ord.trusted).2 = true := by
  have hnot : (c.placed a now ord.hosts).2.2.notified = trustedKey e.addrs := by
    simp only [placed, he, refresh_notified, hn]
  rw [apply_changed h, Bool.or_eq_true, Bool.and_eq_true, diffLocked_news, placed_addrs, hnot]

theorem addrsAfter_of_burst {e : Entry} (he : c.hosts.lookup a.host = some e)
    (hb : now - e.lastSeen ≤ burstWindow) : c.addrsAfter a now = insertAll e.addrs a.addrs := by
  simp only [addrsAfter, he, foldAddrs, if_neg (not_lt.mpr hb)]

theorem calls_vouched_iff {hist : List Event} (ev : Event) (hc : Accounted hist c) :
    (∀ call ∈ c.calls ev, ∀ x ∈ call.2, ∃ ev' ∈ hist ++ [ev], ev'.Vouches call.1 x) ↔
      ¬ c.Leaks hist ev := by
  cases ev with
  | expire now ord =>
    refine iff_of_true ?_ not_false
    intro call hcall x hx
    simp [calls_expire hcall] at hx
  | apply a now trust ord =>
    constructor
    · rintro h ⟨hh, ha, ht, e, he, hb, hadd, x, hx, hxa, -, hno⟩
      rw [← addrsAfter_of_burst he hb] at hadd
      have hch := (apply_changed_of_lookup (by simp [hh, ha]) he (hc _ e he).1).mpr hadd
      have hmem : x ∈ sortAddrs (c.addrsAfter a now) :=
        mem_sortAddrs.mpr (mem_addrsAfter.mpr (Or.inr ⟨e, he, hb, hx⟩))
      obtain ⟨ev', hev, hv⟩ := h _ (call_mem_apply ht hch) x hmem
      rcases List.mem_append.mp hev with hev | hev
      · exact hno ev' hev hv
      · obtain rfl := List.mem_singleton.mp hev
        exact hxa hv.2.2
    · intro h call hcall x hx
      rcases mem_calls_apply hcall with hnil | ⟨h₀, ht, hch, rfl⟩
      · simp [hnil] at hx
      · by_contra hno
        push Not at hno
        have hxa : x ∉ a.addrs := fun hm =>
          hno (.apply a now trust ord) (by simp) ⟨ht, rfl, hm⟩
        rcases mem_addrsAfter.mp (mem_sortAddrs.mp hx) with hm | ⟨e, he, hb, hm⟩
        · exact hxa hm
        · have hadd := (apply_changed_of_lookup h₀ he (hc _ e he).1).mp hch
          rw [addrsAfter_of_burst he hb] at hadd
          simp only [Bool.or_eq_true, decide_eq_true_eq, not_or] at h₀
          exact h ⟨h₀.1, h₀.2, ht, e, he, hb, hadd, x, hm, hxa, (hc _ e he).2 x hm,
            fun ev' hev => hno ev' (List.mem_append_left _ hev)⟩

/-- Along a run from the empty cache, the change callback is only handed addresses announced
for the host by a tier that may trigger updates iff no operation of the run leaks. -/
theorem onChange_vouched_iff (staleGrace goodbyeGrace trustedGrace : Duration) (maxTrusted : ℤ)
    (es : List Event) :
    (∀ pre ev post, es = pre ++ ev :: post →
      ∀ call ∈ (pre.foldl step (empty staleGrace goodbyeGrace trustedGrace maxTrusted)).calls ev,
        ∀ x ∈ call.2, ∃ ev' ∈ pre ++ [ev], ev'.Vouches call.1 x) ↔
    ∀ pre ev post, es = pre ++ ev :: post →
      ¬ (pre.foldl step (empty staleGrace goodbyeGrace trustedGrace maxTrusted)).Leaks pre ev := by
  refine forall_congr' fun pre => forall_congr' fun ev => forall_congr' fun post =>
    imp_congr_right fun _ => ?_
  exact calls_vouched_iff ev (run_accounted _ _ _ _ pre)

def spoofedNas : Event := .apply ⟨"nas".toList, [.v4 0x0a000042], 120⟩ 0 .none {}

def trustedNas : Event := .apply ⟨"nas".toList, [.v4 0x0a000005], 120⟩ second .weak {}

/-- A trusted packet one second after an untrusted one hands both addresses to the callback. -/
theorem onChange_untrusted_burst :
    ((empty 0 0 0 1024).step spoofedNas).calls trustedNas =
        [("nas".toList, [.v4 0x0a000005, .v4 0x0a000042])] ∧
      ¬ ∃ ev ∈ [spoofedNas, trustedNas], ev.Vouches "nas".toList (.v4 0x0a000042) := by
  decide

end Cache

end SplitDNS.MDNS
