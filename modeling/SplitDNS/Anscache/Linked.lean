import SplitDNS.Anscache.Lru
import SplitDNS.Go.Sort

/-! # The cache as a list and a map

The cache as the code keeps it: a linked list of elements in the order of their
last use, and a map from the keys to the elements. An element keeps its place in
memory while it is moved or given another entry. The two always hold the same
keys, and together they refine the recency list.
-/

namespace SplitDNS.Anscache

open Go Go.Strings Dns

structure Element where
  id : ℕ
  key : Key
  entry : Entry

structure Linked where
  cfg : Config
  ll : List Element := []
  m : Map Key ℕ := ∅
  next : ℕ := 0
  stats : Stats := {}

structure EntryStat where
  name : Str
  type : Str
  kind : Str
  doBit : Bool
  hits : ℕ
  age : Duration
  ttl : Duration
  live : Bool
  deriving DecidableEq, Repr

/-- The hottest first, then the youngest, then by name. -/
def EntryStat.rank (s : EntryStat) : ℤ ×ₗ ℤ ×ₗ Str := toLex (-s.hits, toLex (s.age, s.name))

def entryStat (typeToString : RRType → Str) (now : Time) (k : Key) (e : Entry) : EntryStat where
  name := k.name
  type :=
    if typeToString k.qtype = [] then "TYPE".toList ++ formatUint k.qtype.toNat
    else typeToString k.qtype
  kind :=
    match e.body with
    | .answer .positive _ => "positive".toList
    | .answer .negative _ => "negative".toList
    | .fail => "fail".toList
  doBit := k.doBit
  hits := e.hits
  age := now - e.insertedAt
  ttl := e.ttl
  live := now - e.insertedAt < e.ttl

namespace Linked

def new (cfg : Config) : Linked := { cfg := cfg.resolved }

def element (c : Linked) (id : ℕ) : Option Element := c.ll.find? (·.id = id)

def find (c : Linked) (k : Key) : Option Element := (c.m.lookup k).bind c.element

/-- The element comes to the front, with the entry it is given. -/
def moveToFront (c : Linked) (x : Element) : Linked :=
  { c with ll := x :: c.ll.filter (·.id ≠ x.id) }

def removeEl (c : Linked) (x : Element) : Linked :=
  { c with m := c.m.erase x.key, ll := c.ll.filter (·.id ≠ x.id) }

/-- An element that is of no use any more is removed, which counts as a miss. -/
def drop (c : Linked) (x : Element) : Linked :=
  { c.removeEl x with stats := { c.stats with misses := c.stats.misses + 1 } }

def lookup (c : Linked) (k : Key) (now : Time) : Linked × Result :=
  match c.find k with
  | none => ({ c with stats := { c.stats with misses := c.stats.misses + 1 } }, .miss)
  | some x =>
    let age := now - x.entry.insertedAt
    let used := c.moveToFront { x with entry := { x.entry with hits := x.entry.hits + 1 } }
    match x.entry.body with
    | .fail =>
      if age < x.entry.ttl then
        ({ used with stats := { c.stats with failHits := c.stats.failHits + 1 } }, .fail)
      else (c.drop x, .miss)
    | .answer _ msg =>
      if age < x.entry.ttl then
        ({ used with stats := { c.stats with hits := c.stats.hits + 1 } },
          .fresh (decrementTTL msg age))
      else if c.cfg.serveStale && age < x.entry.ttl + c.cfg.staleMaxAge then
        (c.moveToFront x, .stale (stampTTL msg c.cfg.staleTTL))
      else (c.drop x, .miss)

/-- The loop that removes elements from the back until the list is within its capacity, with the
rounds it may take. -/
def evict : ℕ → Linked → Linked
  | 0, c => c
  | n + 1, c =>
    if c.cfg.maxEntries < c.ll.length then
      match c.ll.getLast? with
      | none => c
      | some back =>
        evict n { c.removeEl back with
          stats := { c.stats with evictions := c.stats.evictions + 1 } }
    else c

def put (c : Linked) (k : Key) (e : Entry) : Linked :=
  let placed :=
    match c.find k with
    | some x => c.moveToFront { x with entry := e }
    | none => { c with m := c.m.insert k c.next, ll := ⟨c.next, k, e⟩ :: c.ll, next := c.next + 1 }
  evict placed.ll.length
    { placed with stats := { c.stats with inserts := c.stats.inserts + 1 } }

def store (c : Linked) (k : Key) (resp : Msg) (now : Time) : Linked :=
  match cacheable c.cfg resp with
  | none => c
  | some (ttl, kind) => c.put k { body := .answer kind (Cache.kept resp), insertedAt := now, ttl }

def storeFail (c : Linked) (k : Key) (now : Time) : Linked :=
  c.put k { body := .fail, insertedAt := now, ttl := c.cfg.failTTL }

def peek (c : Linked) (k : Key) (now : Time) : Option Msg :=
  (c.find k).bind fun x =>
    match x.entry.body with
    | .fail => none
    | .answer _ msg => if x.entry.ttl ≤ now - x.entry.insertedAt then none else some msg

def flush (c : Linked) : Linked := { c with ll := [], m := ∅, stats := {} }

def entries (typeToString : RRType → Str) (sort : SliceSort EntryStat.rank)
    (ord : RangeOrder Key ℕ) (c : Linked) (n : ℤ) (now : Time) : List EntryStat :=
  let out := sort.sort ((ord.visit c.m).filterMap fun p =>
    (c.element p.2).map fun x => entryStat typeToString now p.1 x.entry)
  if 0 < n ∧ n < out.length then out.take n.toNat else out

def step (c : Linked) (call : Call) : Linked :=
  match call.method with
  | .store k resp => c.store k resp call.now
  | .storeFail k => c.storeFail k call.now
  | .lookup k => (c.lookup k call.now).1
  | .flush => c.flush
  | _ => c

def touches (c : Linked) (call : Call) : Option Key :=
  match call.method with
  | .lookup k => if (c.lookup k call.now).2 = .miss then none else some k
  | _ => (call.puts c.cfg).map Prod.fst

def touched (past : List (Linked × Call)) : List (Option Key) := past.map fun p => p.1.touches p.2

end Linked

/-- The recency list without what is over the capacity, which is counted. -/
def Cache.trimmed (c : Cache) : Cache :=
  { c with
    entries := Map.keepFirst c.entries c.cfg.maxEntries.toNat
    stats := { c.stats with
      evictions := c.stats.evictions + (c.entries.entries.length - c.cfg.maxEntries.toNat) } }

theorem Cache.put_eq_trimmed (c : Cache) (k : Key) (e : Entry) :
    c.put k e = trimmed { c.moveToFront k e with
      stats := { c.stats with inserts := c.stats.inserts + 1 } } := rfl

theorem Cache.trimmed_of_le {c : Cache} (h : c.entries.entries.length ≤ c.cfg.maxEntries.toNat) :
    c.trimmed = c := by
  have hkeep : Map.keepFirst c.entries c.cfg.maxEntries.toNat = c.entries :=
    AList.ext (List.take_of_length_le h)
  rw [trimmed, hkeep, Nat.sub_eq_zero_of_le h, Nat.add_zero]

theorem entries_erase_of_last {m : Map Key Entry} {init : List (Sigma fun _ : Key => Entry)}
    {k : Key} {e : Entry} (h : m.entries = init ++ [⟨k, e⟩]) : (m.erase k).entries = init := by
  have hnodup := m.nodupKeys
  rw [h, List.NodupKeys, List.keys, List.map_append, List.nodup_append] at hnodup
  have hk : k ∉ init.keys := fun hmem => hnodup.2.2 k hmem k (by simp) rfl
  have hlast : List.kerase k [(⟨k, e⟩ : Sigma fun _ : Key => Entry)] = [] :=
    List.kerase_cons_eq rfl
  change m.entries.kerase k = init
  rw [h, List.kerase_append_right hk, hlast, List.append_nil]

theorem Cache.trimmed_of_last {c : Cache} {init : List (Sigma fun _ : Key => Entry)} {k : Key}
    {e : Entry} (h : c.entries.entries = init ++ [⟨k, e⟩])
    (hover : c.cfg.maxEntries.toNat ≤ init.length) :
    c.trimmed = trimmed { c with
      entries := c.entries.erase k
      stats := { c.stats with evictions := c.stats.evictions + 1 } } := by
  have herase := entries_erase_of_last h
  have hkeep : Map.keepFirst c.entries c.cfg.maxEntries.toNat =
      Map.keepFirst (c.entries.erase k) c.cfg.maxEntries.toNat := by
    apply AList.ext
    change c.entries.entries.take _ = (c.entries.erase k).entries.take _
    rw [h, herase, List.take_append_of_le_length hover]
  have hcount : c.entries.entries.length - c.cfg.maxEntries.toNat =
      1 + ((c.entries.erase k).entries.length - c.cfg.maxEntries.toNat) := by
    rw [h, herase, List.length_append, List.length_singleton]
    omega
  simp only [trimmed, hkeep, hcount, Nat.add_assoc]

def Element.pair (x : Element) : Sigma fun _ : Key => Entry := ⟨x.key, x.entry⟩

/-- The list and the map hold the entries of the recency list, in its order. -/
structure Refines (c : Linked) (a : Cache) : Prop where
  cfg : c.cfg = a.cfg
  stats : c.stats = a.stats
  entries : a.entries.entries = c.ll.map Element.pair
  linked : ∀ k id, c.m.lookup k = some id ↔ ∃ x ∈ c.ll, x.key = k ∧ x.id = id
  ids : (c.ll.map Element.id).Nodup
  fresh : ∀ x ∈ c.ll, x.id < c.next

theorem kerase_map_pair (k : Key) {l : List Element} (h : (l.map Element.key).Nodup) :
    (l.map Element.pair).kerase k = (l.filter (·.key ≠ k)).map Element.pair := by
  induction l with
  | nil => rfl
  | cons y l ih =>
    rw [List.map_cons, List.nodup_cons] at h
    by_cases hy : y.key = k
    · rw [List.map_cons, List.kerase_cons_eq hy.symm, List.filter_cons_of_neg (by simpa using hy),
        List.filter_eq_self.mpr]
      intro z hz
      refine decide_eq_true fun hkey => h.1 ?_
      exact List.mem_map.mpr ⟨z, hz, hkey.trans hy.symm⟩
    · rw [List.map_cons, List.kerase_cons_ne (Ne.symm hy),
        List.filter_cons_of_pos (by simpa using hy), List.map_cons, ih h.2]

namespace Refines

variable {c : Linked} {a : Cache} {k : Key} {x : Element} {e : Entry} {now : Time}

theorem keys (h : Refines c a) : (c.ll.map Element.key).Nodup := by
  have hnodup := a.entries.nodupKeys
  rw [h.entries] at hnodup
  have hkeys : (c.ll.map Element.pair).keys = c.ll.map Element.key := by
    rw [List.keys, List.map_map]
    rfl
  exact hkeys ▸ hnodup

theorem id_eq_iff (h : Refines c a) (hx : x ∈ c.ll) {y : Element} (hy : y ∈ c.ll) :
    y.id = x.id ↔ y.key = x.key := by
  constructor
  · intro hid
    rw [List.inj_on_of_nodup_map h.ids hy hx hid]
  · intro hkey
    rw [List.inj_on_of_nodup_map h.keys hy hx hkey]

theorem element_eq (h : Refines c a) (hx : x ∈ c.ll) : c.element x.id = some x := by
  obtain ⟨y, hy⟩ := Option.isSome_iff_exists.mp
    (List.find?_isSome.mpr ⟨x, hx, decide_eq_true rfl⟩ : (c.ll.find? (·.id = x.id)).isSome = true)
  have hid : y.id = x.id := by simpa using List.find?_some hy
  rw [Linked.element, hy, List.inj_on_of_nodup_map h.ids (List.mem_of_find?_eq_some hy) hx hid]

theorem find_eq_some_iff (h : Refines c a) : c.find k = some x ↔ x ∈ c.ll ∧ x.key = k := by
  rw [Linked.find, Option.bind_eq_some_iff]
  constructor
  · rintro ⟨id, hid, hel⟩
    obtain ⟨y, hy, rfl, rfl⟩ := (h.linked k id).mp hid
    rw [h.element_eq hy] at hel
    cases hel
    exact ⟨hy, rfl⟩
  · rintro ⟨hx, rfl⟩
    exact ⟨x.id, (h.linked _ _).mpr ⟨x, hx, rfl, rfl⟩, h.element_eq hx⟩

theorem lookup_eq (h : Refines c a) : a.entries.lookup k = (c.find k).map Element.entry := by
  have hmem : ∀ e, a.entries.lookup k = some e ↔ ∃ x, c.find k = some x ∧ x.entry = e := by
    intro e
    rw [Map.lookup_eq_some_iff_mem_entries, h.entries, List.mem_map]
    constructor
    · rintro ⟨x, hx, hpair⟩
      cases hpair
      exact ⟨x, h.find_eq_some_iff.mpr ⟨hx, rfl⟩, rfl⟩
    · rintro ⟨x, hx, rfl⟩
      obtain ⟨hmem, rfl⟩ := h.find_eq_some_iff.mp hx
      exact ⟨x, hmem, rfl⟩
  apply Option.ext
  intro e
  rw [hmem, Option.map_eq_some_iff]

theorem kerase_eq (h : Refines c a) (hx : x ∈ c.ll) :
    a.entries.entries.kerase x.key = (c.ll.filter (·.id ≠ x.id)).map Element.pair := by
  rw [h.entries, kerase_map_pair x.key h.keys]
  refine congrArg _ (List.filter_congr fun y hy => ?_)
  rw [decide_eq_decide]
  exact not_congr (h.id_eq_iff hx hy).symm

theorem length (h : Refines c a) : a.entries.entries.length = c.ll.length := by
  rw [h.entries, List.length_map]

theorem ids_filter (h : Refines c a) (p : Element → Bool) :
    ((c.ll.filter p).map Element.id).Nodup :=
  h.ids.sublist (List.filter_sublist.map _)

theorem moveToFront (h : Refines c a) (hx : x ∈ c.ll) (e : Entry) :
    Refines (c.moveToFront { x with entry := e }) (a.moveToFront x.key e) where
  cfg := h.cfg
  stats := h.stats
  entries := by
    rw [Cache.moveToFront, AList.entries_insert, h.kerase_eq hx]
    rfl
  linked k id := by
    rw [Linked.moveToFront, h.linked]
    constructor
    · rintro ⟨y, hy, rfl, rfl⟩
      by_cases hid : y.id = x.id
      · exact ⟨_, List.mem_cons_self, ((h.id_eq_iff hx hy).mp hid).symm, hid.symm⟩
      · exact ⟨y, List.mem_cons_of_mem _ (List.mem_filter.mpr ⟨hy, by simpa using hid⟩), rfl, rfl⟩
    · rintro ⟨y, hy, rfl, rfl⟩
      rcases List.mem_cons.mp hy with rfl | hy
      · exact ⟨x, hx, rfl, rfl⟩
      · exact ⟨y, (List.mem_filter.mp hy).1, rfl, rfl⟩
  ids := by
    rw [Linked.moveToFront, List.map_cons, List.nodup_cons]
    refine ⟨fun hmem => ?_, h.ids_filter _⟩
    obtain ⟨y, hy, hid⟩ := List.mem_map.mp hmem
    exact of_decide_eq_true (List.mem_filter.mp hy).2 hid
  fresh y hy := by
    rcases List.mem_cons.mp hy with rfl | hy
    · exact h.fresh x hx
    · exact h.fresh y (List.mem_filter.mp hy).1

theorem removeEl (h : Refines c a) (hx : x ∈ c.ll) (stats : Stats) :
    Refines { c.removeEl x with stats } { a with entries := a.entries.erase x.key, stats } where
  cfg := h.cfg
  stats := rfl
  entries := h.kerase_eq hx
  linked k id := by
    rw [Linked.removeEl]
    by_cases hk : k = x.key
    · subst hk
      rw [AList.lookup_erase]
      refine ⟨fun hnone => (by cases hnone), ?_⟩
      rintro ⟨y, hy, hkey, rfl⟩
      have hmem := List.mem_filter.mp hy
      exact absurd ((h.id_eq_iff hx hmem.1).mpr hkey) (of_decide_eq_true hmem.2)
    · rw [AList.lookup_erase_ne hk, h.linked]
      constructor
      · rintro ⟨y, hy, rfl, rfl⟩
        refine ⟨y, List.mem_filter.mpr ⟨hy, decide_eq_true fun hid => hk ?_⟩, rfl, rfl⟩
        exact (h.id_eq_iff hx hy).mp hid
      · rintro ⟨y, hy, rfl, rfl⟩
        exact ⟨y, (List.mem_filter.mp hy).1, rfl, rfl⟩
  ids := h.ids_filter _
  fresh y hy := h.fresh y (List.mem_filter.mp hy).1

theorem pushFront (h : Refines c a) (hk : c.find k = none) (e : Entry) :
    Refines { c with m := c.m.insert k c.next, ll := ⟨c.next, k, e⟩ :: c.ll, next := c.next + 1 }
      (a.moveToFront k e) where
  cfg := h.cfg
  stats := h.stats
  entries := by
    have hnot : k ∉ a.entries := by
      rw [← AList.lookup_isSome, h.lookup_eq, hk]
      simp
    rw [Cache.moveToFront, AList.entries_insert_of_notMem hnot, h.entries]
    rfl
  linked k' id := by
    rw [Map.lookup_insert_eq_ite]
    split_ifs with hkk
    · subst hkk
      constructor
      · rintro ⟨⟩
        exact ⟨_, List.mem_cons_self, rfl, rfl⟩
      · rintro ⟨y, hy, hkey, rfl⟩
        rcases List.mem_cons.mp hy with rfl | hy
        · rfl
        · rw [h.find_eq_some_iff.mpr ⟨hy, hkey⟩] at hk
          cases hk
    · rw [h.linked]
      constructor
      · rintro ⟨y, hy, rfl, rfl⟩
        exact ⟨y, List.mem_cons_of_mem _ hy, rfl, rfl⟩
      · rintro ⟨y, hy, rfl, rfl⟩
        rcases List.mem_cons.mp hy with rfl | hy
        · exact absurd rfl hkk
        · exact ⟨y, hy, rfl, rfl⟩
  ids := by
    rw [List.map_cons, List.nodup_cons]
    refine ⟨fun hmem => ?_, h.ids⟩
    obtain ⟨y, hy, hid⟩ := List.mem_map.mp hmem
    exact (h.fresh y hy).ne hid
  fresh y hy := by
    rcases List.mem_cons.mp hy with rfl | hy
    · exact Nat.lt_succ_self _
    · exact Nat.lt_succ_of_lt (h.fresh y hy)

theorem evict (h : Refines c a) {n : ℕ} (hn : c.ll.length ≤ n) :
    Refines (Linked.evict n c) a.trimmed := by
  induction n generalizing c a with
  | zero =>
    rw [Cache.trimmed_of_le (by rw [h.length]; omega)]
    exact h
  | succ n ih =>
    rw [Linked.evict]
    by_cases hover : c.cfg.maxEntries < c.ll.length
    · rw [if_pos hover]
      rcases hback : c.ll.getLast? with _ | back
      · have hnil := List.getLast?_eq_none_iff.mp hback
        rw [Cache.trimmed_of_le (by rw [h.length, hnil]; exact Nat.zero_le _)]
        exact h
      · obtain ⟨init, hinit⟩ := List.getLast?_eq_some_iff.mp hback
        have hmem : back ∈ c.ll := hinit ▸ List.mem_append_right _ List.mem_cons_self
        have hlast : a.entries.entries = init.map Element.pair ++ [⟨back.key, back.entry⟩] := by
          rw [h.entries, hinit, List.map_append]
          rfl
        have hlen := congrArg List.length hinit
        rw [List.length_append, List.length_singleton] at hlen
        have hcap : a.cfg.maxEntries.toNat ≤ init.length := by
          rw [← h.cfg]
          omega
        rw [Cache.trimmed_of_last hlast (by rwa [List.length_map])]
        have hrem := h.removeEl hmem { a.stats with evictions := a.stats.evictions + 1 }
        rw [← h.stats] at hrem ⊢
        refine ih hrem ?_
        have hshort := congrArg List.length hrem.entries
        rw [entries_erase_of_last hlast, List.length_map, List.length_map] at hshort
        omega
    · rw [if_neg hover, Cache.trimmed_of_le (by rw [h.length, ← h.cfg]; omega)]
      exact h

theorem stats_irrel (h : Refines c a) (stats : Stats) :
    Refines { c with stats } { a with stats } :=
  ⟨h.cfg, rfl, h.entries, h.linked, h.ids, h.fresh⟩

theorem put (h : Refines c a) (k : Key) (e : Entry) : Refines (c.put k e) (a.put k e) := by
  rw [Cache.put_eq_trimmed, ← h.stats, Linked.put]
  rcases hf : c.find k with _ | x
  · exact ((h.pushFront hf e).stats_irrel _).evict le_rfl
  · obtain ⟨hx, rfl⟩ := h.find_eq_some_iff.mp hf
    exact ((h.moveToFront hx e).stats_irrel _).evict le_rfl

theorem lookup (h : Refines c a) (k : Key) (now : Time) :
    (c.lookup k now).2 = (a.lookup k now).2 ∧
      Refines (c.lookup k now).1 (a.lookup k now).1 := by
  obtain ⟨cfg, ll, m, next, stats⟩ := c
  obtain ⟨cfg', entries, stats'⟩ := a
  obtain rfl : cfg = cfg' := h.cfg
  obtain rfl : stats = stats' := h.stats
  unfold Linked.lookup Cache.lookup
  rw [h.lookup_eq]
  rcases hf : Linked.find _ k with _ | x
  · exact ⟨rfl, h.stats_irrel _⟩
  obtain ⟨hx, rfl⟩ := h.find_eq_some_iff.mp hf
  have hdrop := h.removeEl hx { stats with misses := stats.misses + 1 }
  dsimp only [Option.map_some]
  rcases hb : x.entry.body with ⟨kind, msg⟩ | _
  · dsimp only
    split_ifs with hfresh hstale
    · exact ⟨rfl, (h.moveToFront hx _).stats_irrel _⟩
    · exact ⟨rfl, h.moveToFront hx x.entry⟩
    · exact ⟨rfl, hdrop⟩
  · dsimp only
    split_ifs with hfail
    · exact ⟨rfl, (h.moveToFront hx _).stats_irrel _⟩
    · exact ⟨rfl, hdrop⟩

theorem new (cfg : Config) : Refines (Linked.new cfg) (Cache.new cfg) where
  cfg := rfl
  stats := rfl
  entries := rfl
  linked k id := by simp [Linked.new]
  ids := List.nodup_nil
  fresh x hx := by cases hx

theorem flush (h : Refines c a) : Refines c.flush a.flush where
  cfg := h.cfg
  stats := rfl
  entries := rfl
  linked k id := by simp [Linked.flush]
  ids := List.nodup_nil
  fresh x hx := by cases hx

theorem step (h : Refines c a) (call : Call) : Refines (c.step call) (a.step call) := by
  obtain ⟨method, now⟩ := call
  cases method with
  | store k resp =>
    change Refines (c.store k resp now) (a.store k resp now)
    rw [Linked.store, Cache.store, h.cfg]
    rcases cacheable a.cfg resp with _ | ⟨ttl, kind⟩
    · exact h
    · exact h.put k _
  | storeFail k =>
    change Refines (c.storeFail k now) (a.storeFail k now)
    rw [Linked.storeFail, Cache.storeFail, h.cfg]
    exact h.put k _
  | lookup k => exact (h.lookup k now).2
  | peek k => exact h
  | entries n => exact h
  | flush => exact h.flush

theorem touches (h : Refines c a) (call : Call) : c.touches call = a.touches call := by
  obtain ⟨method, now⟩ := call
  cases method with
  | lookup k => simp only [Linked.touches, Cache.touches, (h.lookup k now).1]
  | _ => simp only [Linked.touches, Cache.touches, h.cfg]

theorem run (h : Refines c a) (calls : List Call) :
    Refines (calls.foldl Linked.step c) (calls.foldl Cache.step a) ∧
      Linked.touched (Runs.trace Linked.step c calls) =
        Cache.touched (Runs.trace Cache.step a calls) := by
  induction calls generalizing c a with
  | nil => exact ⟨h, rfl⟩
  | cons call calls ih =>
    obtain ⟨hrun, htouched⟩ := ih (h.step call)
    refine ⟨hrun, ?_⟩
    exact congrArg₂ List.cons (h.touches call) htouched

theorem peek_eq_some_iff (h : Refines c a) {msg : Msg} :
    c.peek k now = some msg ↔ ∃ e kind, a.entries.lookup k = some e ∧ e.body = .answer kind msg ∧
      now - e.insertedAt < e.ttl := by
  rw [h.lookup_eq, Linked.peek]
  rcases c.find k with _ | x
  · simp
  · rcases hb : x.entry.body with ⟨kind, msg'⟩ | _
    · simp [hb, and_comm]
    · simp [hb]

theorem entries_m (h : Refines c a) :
    c.m.entries.Perm (c.ll.map fun x => (⟨x.key, x.id⟩ : Sigma fun _ : Key => ℕ)) := by
  have hnodup : (c.ll.map fun x => (⟨x.key, x.id⟩ : Sigma fun _ : Key => ℕ)).Nodup := by
    apply List.Nodup.of_map Sigma.snd
    rw [List.map_map]
    exact h.ids
  rw [List.perm_ext_iff_of_nodup c.m.nodupKeys.nodup hnodup]
  rintro ⟨k, id⟩
  rw [← Map.lookup_eq_some_iff_mem_entries, h.linked, List.mem_map]
  constructor
  · rintro ⟨x, hx, rfl, rfl⟩
    exact ⟨x, hx, rfl⟩
  · rintro ⟨x, hx, hpair⟩
    cases hpair
    exact ⟨x, hx, rfl, rfl⟩

theorem entries_perm (h : Refines c a) (typeToString : RRType → Str)
    (sort : SliceSort EntryStat.rank) (ord : RangeOrder Key ℕ) (now : Time) :
    (c.entries typeToString sort ord 0 now).Perm
      (a.entries.entries.map fun p => entryStat typeToString now p.1 p.2) := by
  let listed : (Sigma fun _ : Key => ℕ) → Option EntryStat := fun p =>
    (c.element p.2).map fun x => entryStat typeToString now p.1 x.entry
  have hll : (c.ll.map fun x => (⟨x.key, x.id⟩ : Sigma fun _ : Key => ℕ)).filterMap listed =
      c.ll.map fun x => entryStat typeToString now x.key x.entry := by
    rw [List.filterMap_map, ← List.filterMap_eq_map]
    refine List.filterMap_congr fun x hx => ?_
    change (c.element x.id).map _ = _
    rw [h.element_eq hx]
    rfl
  have hsorted : c.entries typeToString sort ord 0 now =
      sort.sort ((ord.visit c.m).filterMap listed) := by
    rw [Linked.entries, if_neg fun hlt => absurd hlt.1 (lt_irrefl _)]
  rw [hsorted, h.entries, List.map_map]
  refine (sort.perm _).trans (((ord.perm c.m).trans h.entries_m).filterMap listed |>.trans ?_)
  rw [hll]
  rfl

end Refines

namespace Linked

/-- The list and the map hold the same keys, within the capacity, and a lookup classifies what was
put last under its key by its age. -/
theorem bounded_lru (cfg : Config) (calls : List Call) :
    (((calls.foldl step (new cfg)).ll.map Element.key).Nodup ∧
      ∀ k id, (calls.foldl step (new cfg)).m.lookup k = some id ↔
        ∃ x ∈ (calls.foldl step (new cfg)).ll, x.key = k ∧ x.id = id) ∧
    ((calls.foldl step (new cfg)).ll.length : ℤ) ≤ cfg.resolved.maxEntries ∧
    ∀ k e now, (∀ call ∈ calls, call.now ≤ now) → lastPut cfg.resolved k calls = some e →
      ((since k (touched (Runs.trace step (new cfg) calls))).toFinset.card : ℤ) <
        cfg.resolved.maxEntries →
      ((calls.foldl step (new cfg)).lookup k now).2 = classify cfg.resolved e now := by
  obtain ⟨h, htouched⟩ := (Refines.new cfg).run calls
  have hlen := (Cache.run_length_le cfg calls).2
  have hpos := resolved_maxEntries_pos cfg
  refine ⟨⟨h.keys, h.linked⟩, ?_, ?_⟩
  · rw [h.length] at hlen
    omega
  · intro k e now hnow hput hothers
    rw [htouched] at hothers
    rw [(h.lookup k now).1]
    exact Cache.lookup_lastPut hnow hput (by omega)

def failed (name : Str) : Key := ⟨name, typeA, classINET, false⟩

def failures : List Call :=
  [⟨.storeFail (failed "a.example.".toList), 0⟩, ⟨.storeFail (failed "b.example.".toList), second⟩]

/-- A failure is found until its lifetime is over, though another took the last free place. -/
theorem bounded_lru_failures :
    ((failures.foldl step (new { maxEntries := 2 })).lookup
        (failed "a.example.".toList) (2 * second)).2 = .fail ∧
      ((failures.foldl step (new { maxEntries := 2 })).lookup
        (failed "a.example.".toList) (5 * second)).2 = .miss := by
  constructor
  · exact (bounded_lru { maxEntries := 2 } failures).2.2 (failed "a.example.".toList) _
      (2 * second) (by decide) rfl (by decide)
  · exact (bounded_lru { maxEntries := 2 } failures).2.2 (failed "a.example.".toList) _
      (5 * second) (by decide) rfl (by decide)

end Linked

end SplitDNS.Anscache
