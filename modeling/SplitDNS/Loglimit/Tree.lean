import Mathlib.Tactic.Linarith
import SplitDNS.Loglimit

/-! # Rate limits across a tree of handlers

A root handler and the handlers derived from it refer to tables of types. They
start with one table, but a handler that resets a full table takes a new one for
itself alone, and from then on a type can pass once through each table.
-/

namespace SplitDNS.Loglimit

open Go Go.Strings

/-- A handler of the tree, with the table it refers to. -/
structure Node where
  preset : Str
  table : ℕ

/-- A call of `Handle` on some handler: the table it entered its type in, the type, the time, what
it passed on, and whether it reset a full table. -/
structure TreeCall where
  table : ℕ
  key : Str
  time : Time
  emission : Option Emission
  reset : Bool
  deriving DecidableEq

structure Tree where
  limits : Limits
  handlers : List Node
  tables : List Seen
  log : List TreeCall

def Tree.new (every : Duration) (maxKeys : ℤ) : Tree := ⟨.new every maxKeys, [⟨[], 0⟩], [∅], []⟩

/-- A derived handler keeps the reference to the table. -/
def Tree.derive (t : Tree) (node : Node) (extra : Str) : Tree :=
  { t with handlers := t.handlers ++ [⟨node.preset ++ extra, node.table⟩] }

/-- `Handle` on a handler of the tree. A reset is seen by this handler only. -/
def Tree.handle (t : Tree) (i : ℕ) (node : Node) (seen : Seen) (r : Record) (now : Time) : Tree :=
  let k := key node.preset r
  if t.limits.every ≤ 0 then
    { t with log := t.log ++ [⟨node.table, k, now, some (emit r 0), false⟩] }
  else
    let marked := mark (room t.limits seen k now) k now t.limits.every
    if Resets t.limits seen k now then
      { t with
        handlers := t.handlers.set i { node with table := t.tables.length }
        tables := t.tables.set node.table (evicted t.limits seen k now) ++ [marked.1]
        log := t.log ++ [⟨t.tables.length, k, now, marked.2.map (emit r), true⟩] }
    else
      { t with
        tables := t.tables.set node.table marked.1
        log := t.log ++ [⟨node.table, k, now, marked.2.map (emit r), false⟩] }

inductive Event
  | withAttrs (i : ℕ) (as : List Attr)
  | withGroup (i : ℕ) (name : Str)
  | handle (i : ℕ) (r : Record) (now : Time)

/-- An event on a handler of the tree. The clock does not run backwards. -/
def Tree.step (t : Tree) : Event → Option Tree
  | .withAttrs i as => t.handlers[i]?.map fun node => t.derive node (as.flatMap writeAttr)
  | .withGroup i name =>
    t.handlers[i]?.map fun node =>
      if name = [] then t else t.derive node (Char.ofNat 0x1e :: "group=".toList ++ name)
  | .handle i r now =>
    match t.handlers[i]? with
    | none => none
    | some node =>
      match t.tables[node.table]? with
      | none => none
      | some seen => if ∀ c ∈ t.log, c.time ≤ now then some (t.handle i node seen r now) else none

/-- Between two records of a type that are emitted less than the interval apart, some call reset a
full table. -/
def Spaced (every : Duration) (log : List TreeCall) : Prop :=
  ∀ pre x mid y post, log = pre ++ x :: (mid ++ y :: post) → x.emission.isSome = true →
    y.emission.isSome = true → x.key = y.key → y.time - x.time < every →
    y.reset = true ∨ ∃ z ∈ mid, z.reset = true

/-- The type was emitted through a table less than the interval before a time. -/
def Passed (every : Duration) (log : List TreeCall) (table : ℕ) (k : Str) (now : Time) : Prop :=
  ∃ z ∈ log, z.emission.isSome = true ∧ z.table = table ∧ z.key = k ∧ now - z.time < every

/-- If the type of the record was emitted less than the interval ago and no table was reset since,
the call resets its table, or its handler refers to a table through which the type was emitted
less than the interval ago. -/
def Covered (t : Tree) : Event → Prop
  | .handle i r now =>
    ∀ node seen, t.handlers[i]? = some node → t.tables[node.table]? = some seen →
      ∀ pre x mid, t.log = pre ++ x :: mid → x.emission.isSome = true →
        x.key = key node.preset r → now - x.time < t.limits.every →
        (∀ z ∈ mid, z.reset = false) →
        Resets t.limits seen (key node.preset r) now ∨
          Passed t.limits.every t.log node.table (key node.preset r) now
  | _ => True

/-! ## One table -/

/-- A table remembers the emissions through it that are less than the interval old. -/
structure Tracks (every : Duration) (now : Time) (log : List TreeCall) (i : ℕ) (seen : Seen) :
    Prop where
  of_entry : ∀ k e, seen.lookup k = some e → e.lastEmit ≤ e.lastSeen ∧
    ∃ z ∈ log, z.emission.isSome = true ∧ z.table = i ∧ z.key = k ∧ z.time = e.lastEmit
  of_call : ∀ z ∈ log, z.emission.isSome = true → z.table = i → every ≤ now - z.time ∨
    ∃ e, seen.lookup z.key = some e ∧ e.emitted = true ∧ z.time ≤ e.lastEmit

section Tracks

variable {every : Duration} {now : Time} {log : List TreeCall} {i : ℕ} {seen : Seen} {c : TreeCall}

theorem tracks_empty (h : ∀ z ∈ log, z.table ≠ i) : Tracks every now log i ∅ where
  of_entry _ _ he := by cases he
  of_call z hz _ hi := absurd hi (h z hz)

theorem Tracks.of_entry_concat (h : Tracks every now log i seen) {k : Str} {e : Entry}
    (he : seen.lookup k = some e) : e.lastEmit ≤ e.lastSeen ∧ ∃ z ∈ log ++ [c],
      z.emission.isSome = true ∧ z.table = i ∧ z.key = k ∧ z.time = e.lastEmit := by
  obtain ⟨hle, z, hz, hrest⟩ := h.of_entry k e he
  exact ⟨hle, z, List.mem_append_left _ hz, hrest⟩

theorem Tracks.later (h : Tracks every now log i seen) {now' : Time} (hle : now ≤ now') :
    Tracks every now' log i seen where
  of_entry := h.of_entry
  of_call z hz hemitted hi := by
    refine (h.of_call z hz hemitted hi).imp_left fun hold => ?_
    linarith

theorem Tracks.other (h : Tracks every now log i seen) (hc : c.table ≠ i) :
    Tracks every now (log ++ [c]) i seen where
  of_entry _ _ := h.of_entry_concat
  of_call z hz hemitted hi := by
    rcases List.mem_append.mp hz with hz | hz
    · exact h.of_call z hz hemitted hi
    · rw [List.mem_singleton.mp hz] at hi
      exact absurd hi hc

theorem Tracks.passThrough (h : Tracks every now log i seen) (hevery : every ≤ 0)
    (hpast : ∀ z ∈ log ++ [c], z.time ≤ now) : Tracks every now (log ++ [c]) i seen where
  of_entry _ _ := h.of_entry_concat
  of_call z hz _ _ := by
    left
    have := hpast z hz
    linarith

theorem Tracks.evicted {lim : Limits} (h : Tracks lim.every now log i seen) (k : Str) :
    Tracks lim.every now log i (evicted lim seen k now) := by
  rw [Loglimit.evicted]
  split_ifs
  · constructor
    · intro k e he
      rw [lookup_dropIdle, Option.filter_eq_some_iff] at he
      exact h.of_entry k e he.1
    · intro z hz hemitted hi
      rcases h.of_call z hz hemitted hi with hold | ⟨e, he, hmark, hle⟩
      · exact Or.inl hold
      · by_cases hidle : lim.every ≤ now - e.lastSeen
        · have hseen := (h.of_entry z.key e he).1
          left
          linarith
        · refine Or.inr ⟨e, ?_, hmark, hle⟩
          rw [lookup_dropIdle, Option.filter_eq_some_iff]
          exact ⟨he, by simp [hidle]⟩
  · exact h

theorem Tracks.isSome_mark_iff (h : Tracks every now log i seen) (k : Str) :
    (mark seen k now every).2.isSome = true ↔ ¬ Passed every log i k now := by
  rcases mark_cases every seen k now with ⟨e, he, -, hrecent, hmark⟩ | ⟨hold, hmark⟩
  · obtain ⟨-, z, hz, hemitted, hi, hk, ht⟩ := h.of_entry k e he
    rw [hmark]
    exact iff_of_false (fun h => by cases h) fun hn => hn ⟨z, hz, hemitted, hi, hk, ht ▸ hrecent⟩
  · rw [hmark]
    refine iff_of_true rfl ?_
    rintro ⟨z, hz, hemitted, hi, rfl, hrecent⟩
    rcases h.of_call z hz hemitted hi with hle | ⟨e, he, hmarked, hle⟩
    · linarith
    · have := hold e he hmarked
      linarith

theorem Tracks.suppressed (h : Tracks every now log i seen) (hpast : ∀ z ∈ log, z.time ≤ now)
    (hc : ¬ c.emission.isSome = true) {e : Entry} (he : seen.lookup c.key = some e) (n : ℕ) :
    Tracks every now (log ++ [c]) i
      (seen.insert c.key { e with lastSeen := now, suppressed := n }) where
  of_entry k e' he' := by
    rw [Map.lookup_insert_eq_ite] at he'
    split_ifs at he' with hk
    · subst hk
      cases he'
      obtain ⟨-, z, hz, hrest⟩ := h.of_entry c.key e he
      exact ⟨hrest.2.2.2 ▸ hpast z hz, z, List.mem_append_left _ hz, hrest⟩
    · exact h.of_entry_concat he'
  of_call y hy hemitted hyi := by
    rcases List.mem_append.mp hy with hy | hy
    · refine (h.of_call y hy hemitted hyi).imp_right ?_
      rintro ⟨e', he', hrest⟩
      rw [Map.lookup_insert_eq_ite]
      split_ifs with hk
      · rw [hk, he] at he'
        cases he'
        exact ⟨_, rfl, hrest⟩
      · exact ⟨e', he', hrest⟩
    · rw [List.mem_singleton.mp hy] at hemitted
      exact absurd hemitted hc

theorem Tracks.emitted (h : Tracks every now log i seen) (hpast : ∀ z ∈ log, z.time ≤ now)
    (hi : c.table = i) (ht : c.time = now) (hc : c.emission.isSome = true) :
    Tracks every now (log ++ [c]) i (seen.insert c.key ⟨true, now, now, 0⟩) where
  of_entry k e' he' := by
    rw [Map.lookup_insert_eq_ite] at he'
    split_ifs at he' with hk
    · subst hk
      cases he'
      exact ⟨le_rfl, c, List.mem_append_right _ List.mem_cons_self, hc, hi, rfl, ht⟩
    · exact h.of_entry_concat he'
  of_call y hy hemitted hyi := by
    rw [Map.lookup_insert_eq_ite]
    rcases List.mem_append.mp hy with hy | hy
    · refine (h.of_call y hy hemitted hyi).imp_right ?_
      rintro ⟨e', he', hrest⟩
      split_ifs with hk
      · exact ⟨_, rfl, rfl, hpast y hy⟩
      · exact ⟨e', he', hrest⟩
    · rw [List.mem_singleton.mp hy, if_pos rfl]
      exact Or.inr ⟨_, rfl, rfl, ht.le⟩

theorem Tracks.mark (h : Tracks every now log i seen) (hpast : ∀ z ∈ log, z.time ≤ now)
    (hi : c.table = i) (ht : c.time = now)
    (hc : c.emission.isSome = (mark seen c.key now every).2.isSome) :
    Tracks every now (log ++ [c]) i (Loglimit.mark seen c.key now every).1 := by
  rcases mark_cases every seen c.key now with ⟨e, he, -, -, hmark⟩ | ⟨-, hmark⟩
  · rw [hmark] at hc ⊢
    exact h.suppressed hpast (by simp [hc]) he _
  · rw [hmark] at hc ⊢
    exact h.emitted hpast hi ht hc

end Tracks

/-! ## The whole tree -/

structure Tree.Inv (t : Tree) : Prop where
  node_lt : ∀ node ∈ t.handlers, node.table < t.tables.length
  call_lt : ∀ c ∈ t.log, c.table < t.tables.length
  tracks : ∀ now, (∀ c ∈ t.log, c.time ≤ now) → ∀ i seen, t.tables[i]? = some seen →
    Tracks t.limits.every now t.log i seen

theorem Tree.inv_new (every : Duration) (maxKeys : ℤ) : (Tree.new every maxKeys).Inv where
  node_lt := by
    intro node hnode
    rw [List.mem_singleton.mp hnode]
    exact Nat.one_pos
  call_lt c hc := by cases hc
  tracks now _ i seen hi := by
    obtain ⟨-, rfl⟩ : i = 0 ∧ seen = ∅ := by
      rcases i with _ | i
      · cases hi
        exact ⟨rfl, rfl⟩
      · cases hi
    exact tracks_empty fun c hc => by cases hc

theorem Tree.step_cases {t t' : Tree} {e : Event} (h : t.step e = some t') :
    (∃ node ∈ t.handlers, ∃ extra, t' = t.derive node extra ∧ Covered t e) ∨
      (t' = t ∧ Covered t e) ∨
      ∃ i r now node seen, e = .handle i r now ∧ t.handlers[i]? = some node ∧
        t.tables[node.table]? = some seen ∧ (∀ c ∈ t.log, c.time ≤ now) ∧
        t' = t.handle i node seen r now := by
  cases e with
  | withAttrs i as =>
    obtain ⟨node, hnode, rfl⟩ := Option.map_eq_some_iff.mp h
    exact Or.inl ⟨node, List.mem_of_getElem? hnode, _, rfl, trivial⟩
  | withGroup i name =>
    obtain ⟨node, hnode, rfl⟩ := Option.map_eq_some_iff.mp h
    by_cases hname : name = []
    · exact Or.inr (Or.inl ⟨if_pos hname, trivial⟩)
    · exact Or.inl ⟨node, List.mem_of_getElem? hnode, _, if_neg hname, trivial⟩
  | handle i r now =>
    rw [step] at h
    split at h
    · cases h
    · rename_i node hnode
      split at h
      · cases h
      · rename_i seen hseen
        split_ifs at h with hpast
        cases h
        exact Or.inr (Or.inr ⟨i, r, now, node, seen, rfl, hnode, hseen, hpast, rfl⟩)

/-- What a call makes of the tree: it passes the record on, or enters its type in a new table, or
in the one its handler refers to. -/
theorem Tree.handle_cases (t : Tree) (i : ℕ) (node : Node) (seen : Seen) (r : Record) (now : Time) :
    (t.limits.every ≤ 0 ∧ t.handle i node seen r now =
      { t with log := t.log ++ [⟨node.table, key node.preset r, now, some (emit r 0), false⟩] }) ∨
    (0 < t.limits.every ∧ Resets t.limits seen (key node.preset r) now ∧
      t.handle i node seen r now =
        { t with
          handlers := t.handlers.set i { node with table := t.tables.length }
          tables := t.tables.set node.table (evicted t.limits seen (key node.preset r) now) ++
            [(mark ∅ (key node.preset r) now t.limits.every).1]
          log := t.log ++ [⟨t.tables.length, key node.preset r, now,
            (mark ∅ (key node.preset r) now t.limits.every).2.map (emit r), true⟩] }) ∨
    (0 < t.limits.every ∧ ¬ Resets t.limits seen (key node.preset r) now ∧
      t.handle i node seen r now =
        { t with
          tables := t.tables.set node.table
            (mark (evicted t.limits seen (key node.preset r) now) (key node.preset r) now
              t.limits.every).1
          log := t.log ++ [⟨node.table, key node.preset r, now,
            (mark (evicted t.limits seen (key node.preset r) now) (key node.preset r) now
              t.limits.every).2.map (emit r), false⟩] }) := by
  rw [handle, room]
  by_cases hevery : t.limits.every ≤ 0
  · exact Or.inl ⟨hevery, if_pos hevery⟩
  · by_cases hreset : Resets t.limits seen (key node.preset r) now
    · refine Or.inr (Or.inl ⟨not_le.mp hevery, hreset, ?_⟩)
      simp only [if_neg hevery, if_pos hreset]
    · refine Or.inr (Or.inr ⟨not_le.mp hevery, hreset, ?_⟩)
      simp only [if_neg hevery, if_neg hreset]

section Step

variable {t : Tree} {i : ℕ} {node : Node} {seen : Seen} {r : Record} {now : Time}

theorem Tree.Inv.derive (h : t.Inv) (hnode : node ∈ t.handlers) (extra : Str) :
    (t.derive node extra).Inv where
  node_lt := by
    intro node' hmem
    rcases List.mem_append.mp hmem with hmem | hmem
    · exact h.node_lt node' hmem
    · rw [List.mem_singleton.mp hmem]
      exact h.node_lt node hnode
  call_lt := h.call_lt
  tracks := h.tracks

theorem Tree.Inv.enter (h : t.Inv) (c : TreeCall) {seen' : Seen} (hlt : c.table < t.tables.length)
    (hpast : ∀ z ∈ t.log, z.time ≤ c.time)
    (htracks : Tracks t.limits.every c.time (t.log ++ [c]) c.table seen') :
    { t with tables := t.tables.set c.table seen', log := t.log ++ [c] }.Inv where
  node_lt node hnode := by
    rw [List.length_set]
    exact h.node_lt node hnode
  call_lt := by
    rw [List.length_set]
    exact List.forall_mem_append.mpr ⟨h.call_lt, List.forall_mem_singleton.mpr hlt⟩
  tracks now' hpast' j seen'' hj := by
    refine Tracks.later ?_ (hpast' c (List.mem_append_right _ List.mem_cons_self))
    rw [List.getElem?_set] at hj
    split_ifs at hj with hj'
    · subst hj'
      cases hj
      exact htracks
    · exact (h.tracks c.time hpast j seen'' hj).other hj'

/-- A call that makes a new table for its handler, and leaves the old one with what was not idle to
the others. -/
theorem Tree.Inv.reset (h : t.Inv) (c : TreeCall) {old new : Seen} (hc : c.table = t.tables.length)
    (hpast : ∀ z ∈ t.log, z.time ≤ c.time)
    (hold : Tracks t.limits.every c.time t.log node.table old)
    (hnew : Tracks t.limits.every c.time (t.log ++ [c]) c.table new) :
    { t with
      handlers := t.handlers.set i { node with table := t.tables.length }
      tables := t.tables.set node.table old ++ [new]
      log := t.log ++ [c] }.Inv where
  node_lt node' hnode' := by
    rw [List.length_append, List.length_set]
    rcases List.mem_or_eq_of_mem_set hnode' with hmem | rfl
    · exact Nat.lt_succ_of_lt (h.node_lt node' hmem)
    · exact Nat.lt_succ_self _
  call_lt := by
    rw [List.length_append, List.length_set]
    exact List.forall_mem_append.mpr ⟨fun c hc => Nat.lt_succ_of_lt (h.call_lt c hc),
      List.forall_mem_singleton.mpr (hc ▸ Nat.lt_succ_self _)⟩
  tracks now' hpast' j seen' hj := by
    refine Tracks.later ?_ (hpast' c (List.mem_append_right _ List.mem_cons_self))
    rcases Nat.lt_trichotomy j t.tables.length with hlt | rfl | hgt
    · rw [List.getElem?_append_left (by rw [List.length_set]; exact hlt), List.getElem?_set] at hj
      split_ifs at hj with hj'
      · subst hj'
        cases hj
        exact hold.other (hc ▸ hlt.ne')
      · exact (h.tracks c.time hpast j seen' hj).other (hc ▸ hlt.ne')
    · rw [List.getElem?_append_right (by rw [List.length_set]), List.length_set, Nat.sub_self] at hj
      cases hj
      exact hc ▸ hnew
    · rw [List.getElem?_eq_none (by simp; omega)] at hj
      cases hj

theorem Tree.Inv.handle (h : t.Inv) (hnode : node ∈ t.handlers)
    (hseen : t.tables[node.table]? = some seen) (hpast : ∀ c ∈ t.log, c.time ≤ now) :
    (t.handle i node seen r now).Inv := by
  have hlt := h.node_lt node hnode
  have hevict := (h.tracks now hpast node.table seen hseen).evicted (key node.preset r)
  rcases t.handle_cases i node seen r now with ⟨hevery, heq⟩ | ⟨-, -, heq⟩ | ⟨-, -, heq⟩
  · rw [heq]
    refine ⟨h.node_lt, ?_, fun now' hpast' j seen' hj => ?_⟩
    · exact List.forall_mem_append.mpr ⟨h.call_lt, List.forall_mem_singleton.mpr hlt⟩
    · have hold := h.tracks now' (List.forall_mem_append.mp hpast').1 j seen' hj
      exact hold.passThrough hevery hpast'
  · rw [heq]
    have hnew : Tracks t.limits.every now t.log t.tables.length ∅ :=
      tracks_empty fun c hc => (h.call_lt c hc).ne
    exact h.reset ⟨_, _, now, _, _⟩ rfl hpast hevict
      (hnew.mark hpast rfl rfl (by rw [Option.isSome_map]))
  · rw [heq]
    exact h.enter ⟨node.table, _, now, _, _⟩ hlt hpast
      (hevict.mark hpast rfl rfl (by rw [Option.isSome_map]))

theorem Tree.Inv.step {t' : Tree} {e : Event} (h : t.Inv) (hstep : t.step e = some t') :
    t'.Inv := by
  rcases step_cases hstep with ⟨node, hnode, extra, rfl, -⟩ | ⟨rfl, -⟩ |
    ⟨i, r, now, node, seen, -, hnode, hseen, hpast, rfl⟩
  · exact h.derive hnode extra
  · exact h
  · exact h.handle (List.mem_of_getElem? hnode) hseen hpast

theorem limits_step {t' : Tree} {e : Event} (hstep : t.step e = some t') :
    t'.limits = t.limits := by
  rcases Tree.step_cases hstep with ⟨node, -, extra, rfl, -⟩ | ⟨rfl, -⟩ |
    ⟨i, r, now, node, seen, -, -, -, -, rfl⟩
  · rfl
  · rfl
  · rcases t.handle_cases i node seen r now with ⟨-, heq⟩ | ⟨-, -, heq⟩ | ⟨-, -, heq⟩ <;> rw [heq]

theorem spaced_nil (every : Duration) : Spaced every [] := by
  intro pre x mid y post h
  simp at h

theorem spaced_concat {every : Duration} {log : List TreeCall} {y : TreeCall} :
    Spaced every (log ++ [y]) ↔ Spaced every log ∧
      ∀ pre x mid, log = pre ++ x :: mid → x.emission.isSome = true → y.emission.isSome = true →
        x.key = y.key → y.time - x.time < every → y.reset = true ∨ ∃ z ∈ mid, z.reset = true := by
  constructor
  · intro h
    refine ⟨?_, ?_⟩
    · rintro pre x mid y' post rfl
      exact h pre x mid y' (post ++ [y]) (by simp)
    · rintro pre x mid rfl
      exact h pre x mid y [] (by simp)
  · rintro ⟨hlog, hy⟩ pre x mid y' post hsplit
    rcases List.eq_nil_or_concat post with rfl | ⟨post, last, rfl⟩
    · rw [← List.cons_append, ← List.append_assoc] at hsplit
      obtain ⟨hpre, hlast⟩ := List.append_inj' hsplit rfl
      cases hlast
      exact hy pre x mid hpre
    · rw [List.concat_eq_append, ← List.cons_append, ← List.append_assoc, ← List.cons_append,
        ← List.append_assoc] at hsplit
      have hprev := (List.append_inj' hsplit rfl).1
      rw [List.append_assoc, List.cons_append] at hprev
      exact hlog pre x mid y' post hprev

theorem covered_handle_iff (hnode : t.handlers[i]? = some node)
    (hseen : t.tables[node.table]? = some seen) :
    Covered t (.handle i r now) ↔ ∀ pre x mid, t.log = pre ++ x :: mid →
      x.emission.isSome = true → x.key = key node.preset r → now - x.time < t.limits.every →
      (∀ z ∈ mid, z.reset = false) → Resets t.limits seen (key node.preset r) now ∨
        Passed t.limits.every t.log node.table (key node.preset r) now := by
  refine ⟨fun hc => hc node seen hnode hseen, ?_⟩
  intro hc node' seen' hnode' hseen'
  rw [hnode] at hnode'
  cases hnode'
  rw [hseen] at hseen'
  cases hseen'
  exact hc

theorem spaced_step {t' : Tree} {e : Event} (h : t.Inv) (hstep : t.step e = some t') :
    Spaced t'.limits.every t'.log ↔ Spaced t.limits.every t.log ∧ Covered t e := by
  rcases Tree.step_cases hstep with ⟨node, hnode, extra, rfl, hcov⟩ | ⟨rfl, hcov⟩ |
    ⟨i, r, now, node, seen, rfl, hnode, hseen, hpast, rfl⟩
  · exact (and_iff_left hcov).symm
  · exact (and_iff_left hcov).symm
  · have hevict := (h.tracks now hpast node.table seen hseen).evicted (key node.preset r)
    rw [covered_handle_iff hnode hseen]
    rcases t.handle_cases i node seen r now with ⟨hevery, heq⟩ | ⟨-, hreset, heq⟩ |
      ⟨-, hreset, heq⟩
    · rw [heq, spaced_concat]
      refine and_congr_right fun _ => iff_of_true ?_ ?_
      · intro pre x mid hlog _ _ _ hlt
        have := hpast x (hlog ▸ by simp)
        dsimp only at hlt
        linarith
      · intro pre x mid hlog _ _ hlt
        have := hpast x (hlog ▸ by simp)
        linarith
    · rw [heq, spaced_concat]
      exact and_congr_right fun _ => iff_of_true
        (fun _ _ _ _ _ _ _ _ => Or.inl rfl) fun _ _ _ _ _ _ _ _ => Or.inl hreset
    · rw [heq, spaced_concat]
      refine and_congr_right fun _ => forall₄_congr fun pre x mid hlog => ?_
      dsimp only
      rw [Option.isSome_map, hevict.isSome_mark_iff]
      have hmid : (∀ z ∈ mid, z.reset = false) ↔ ¬ ∃ z ∈ mid, z.reset = true := by simp
      simp only [hmid, hreset, false_or, Bool.false_eq_true]
      constructor
      · intro hspaced hx hk hrecent hno
        by_contra hpassed
        exact hno (hspaced hx hpassed hk hrecent)
      · intro hcov hx hpassed hk hrecent
        by_contra hno
        exact hpassed (hcov hx hk hrecent hno)

end Step

/-- Along every run of a tree the emissions of a type are kept apart, but for resets, exactly if
every call is covered. -/
theorem spaced_iff (every : Duration) (maxKeys : ℤ) (es : List Event) (t : Tree)
    (hrun : Runs.run Tree.step (.new every maxKeys) es = some t) :
    Spaced every t.log ↔
      Runs.Along Tree.step (.new every maxKeys) (fun _ t e => Covered t e) es := by
  have hinv :
      ∀ (s : Tree) (e : Event) (s' : Tree), s.Inv ∧ s.limits.every = every → s.step e = some s' →
      s'.Inv ∧ s'.limits.every = every := by
    rintro s e s' ⟨h, hevery⟩ hstep
    exact ⟨h.step hstep, (limits_step hstep).symm ▸ hevery⟩
  refine (@Runs.iff_along _ _ _ _ _ es (fun t => Spaced every t.log)
    (fun t => t.Inv ∧ t.limits.every = every) (fun _ t e => Covered t e) (spaced_nil every)
    ⟨Tree.inv_new every maxKeys, rfl⟩ hinv ?_ hrun).1
  rintro - s e s' ⟨h, rfl⟩ hstep
  have hspaced := spaced_step h hstep
  rwa [limits_step hstep] at hspaced

/-- The root and a handler derived from it emit one type, an interval apart. -/
theorem spaced_iff_twice :
    let r : Record := ⟨"WARN".toList, "a".toList, [⟨"zone".toList, "lan".toList⟩]⟩
    let es : List Event :=
      [.withAttrs 0 r.attrs, .handle 0 r 0, .handle 1 { r with attrs := [] } 10]
    ∃ t, Runs.run Tree.step (.new 10 1) es = some t ∧
      t.log.map (fun x => (x.key, x.emission.isSome)) = List.replicate 2 (key [] r, true) ∧
      (Spaced 10 t.log ↔ Runs.Along Tree.step (.new 10 1) (fun _ t e => Covered t e) es) := by
  intro r es
  obtain ⟨t, hrun, hlog⟩ := Option.map_eq_some_iff.mp (show
    (Runs.run Tree.step (.new 10 1) es).map
      (fun t => t.log.map fun x => (x.key, x.emission.isSome)) =
        some (List.replicate 2 (key [] r, true)) by decide)
  exact ⟨t, hrun, hlog, spaced_iff 10 1 es t hrun⟩

/-- The root resets its table after a handler was derived from it. Later both emit one type within
the interval, though no table is reset between. -/
theorem not_spaced_derived :
    ∃ t, Runs.run Tree.step (.new 10 1)
        [.withAttrs 0 [⟨"zone".toList, "lan".toList⟩],
          .handle 0 ⟨"WARN".toList, "a".toList, []⟩ 0, .handle 0 ⟨"WARN".toList, "b".toList, []⟩ 0,
          .handle 0 ⟨"WARN".toList, "c".toList, [⟨"zone".toList, "lan".toList⟩]⟩ 10,
          .handle 1 ⟨"WARN".toList, "c".toList, []⟩ 11] = some t ∧ ¬ Spaced 10 t.log := by
  have hrun : (Runs.run Tree.step (.new 10 1)
      [.withAttrs 0 [⟨"zone".toList, "lan".toList⟩],
        .handle 0 ⟨"WARN".toList, "a".toList, []⟩ 0, .handle 0 ⟨"WARN".toList, "b".toList, []⟩ 0,
        .handle 0 ⟨"WARN".toList, "c".toList, [⟨"zone".toList, "lan".toList⟩]⟩ 10,
        .handle 1 ⟨"WARN".toList, "c".toList, []⟩ 11]).map Tree.log = some
      ([⟨0, key [] ⟨"WARN".toList, "a".toList, []⟩, 0,
          some (emit ⟨"WARN".toList, "a".toList, []⟩ 0), false⟩,
        ⟨1, key [] ⟨"WARN".toList, "b".toList, []⟩, 0,
          some (emit ⟨"WARN".toList, "b".toList, []⟩ 0), true⟩] ++
        ⟨1, key [] ⟨"WARN".toList, "c".toList, [⟨"zone".toList, "lan".toList⟩]⟩, 10,
          some (emit ⟨"WARN".toList, "c".toList, [⟨"zone".toList, "lan".toList⟩]⟩ 0), false⟩ ::
        ([] ++ ⟨0, key (writeAttr ⟨"zone".toList, "lan".toList⟩)
          ⟨"WARN".toList, "c".toList, []⟩, 11,
          some (emit ⟨"WARN".toList, "c".toList, []⟩ 0), false⟩ :: [])) := by
    decide
  obtain ⟨t, ht, hlog⟩ := Option.map_eq_some_iff.mp hrun
  refine ⟨t, ht, fun h => ?_⟩
  have hreset := h _ _ _ _ _ hlog rfl rfl (by decide) (by decide)
  simp at hreset

end SplitDNS.Loglimit
