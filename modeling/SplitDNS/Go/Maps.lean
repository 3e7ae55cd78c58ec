import Mathlib.Data.List.AList
import Mathlib.Data.List.Induction

/-! # Maps

Go maps as association lists without duplicate keys. Reading an absent key
gives the zero value of the value type. `range` visits a map in any order: a
loop whose result depends on it takes the order as an argument.
-/

namespace Go

abbrev Map (K V : Type*) := AList (fun _ : K => V)

/-- A `map[K]struct{}` used as a set. -/
abbrev KeySet (K : Type*) := Map K Unit

/-- The order in which a `range` loop visits each map. -/
structure RangeOrder (K V : Type*) where
  visit : Map K V → List (Sigma fun _ : K => V)
  perm : ∀ m, (visit m).Perm m.entries

instance {K V : Type*} : Inhabited (RangeOrder K V) :=
  ⟨fun m => m.entries, fun _ => List.Perm.refl _⟩

namespace Map

variable {K V α : Type*} [DecidableEq K]

/-- The map literal of a list of entries, the first entry of a key winning. -/
def ofList (l : List (K × V)) : Map K V :=
  (l.map fun p => (⟨p.1, p.2⟩ : Sigma fun _ : K => V)).toAList

/-- `m[k] = append(m[k], x)`. -/
def appendAt (m : Map K (List α)) (k : K) (x : α) : Map K (List α) :=
  m.insert k ((m.lookup k).getD [] ++ [x])

theorem lookup_appendAt (m : Map K (List α)) (k k' : K) (x : α) :
    (appendAt m k x).lookup k' =
      if k' = k then some ((m.lookup k).getD [] ++ [x]) else m.lookup k' := by
  split_ifs with h
  · subst h; exact AList.lookup_insert _
  · exact AList.lookup_insert_ne h

theorem lookup_insert_eq_ite (m : Map K V) (k k' : K) (v : V) :
    (m.insert k v).lookup k' = if k' = k then some v else m.lookup k' := by
  split_ifs with h
  · subst h; exact AList.lookup_insert _
  · exact AList.lookup_insert_ne h

theorem lookup_erase_eq_some {m : Map K V} {k k' : K} {v : V}
    (h : (m.erase k).lookup k' = some v) : k' ≠ k ∧ m.lookup k' = some v := by
  rcases eq_or_ne k' k with rfl | hne
  · rw [AList.lookup_erase] at h
    cases h
  · rw [AList.lookup_erase_ne hne] at h
    exact ⟨hne, h⟩

theorem lookup_eq_some_iff_mem_entries {m : Map K V} {k : K} {v : V} :
    m.lookup k = some v ↔ (⟨k, v⟩ : Sigma fun _ : K => V) ∈ m.entries :=
  AList.mem_lookup_iff

theorem mem_of_lookup {m : Map K V} {k : K} {v : V} (h : m.lookup k = some v) : k ∈ m :=
  AList.lookup_isSome.mp (Option.isSome_of_eq_some h)

theorem entries_eq_nil_iff {m : Map K V} : m.entries = [] ↔ ∀ k, m.lookup k = none := by
  constructor
  · intro h k
    apply AList.lookup_eq_none.mpr
    simp [AList.mem_keys, AList.keys, h]
  · intro h
    rcases hm : m.entries with _ | ⟨⟨k, v⟩, l⟩
    · rfl
    · have := lookup_eq_some_iff_mem_entries.mpr
        (show (⟨k, v⟩ : Sigma fun _ : K => V) ∈ m.entries by
        simp [hm])
      simp [h k] at this

theorem dlookup_kreplace (l : List (Sigma fun _ : K => V)) (k k' : K) (v : V) :
    List.dlookup k' (List.kreplace k v l) =
      if k' = k ∧ k ∈ l.keys then some v else List.dlookup k' l := by
  induction l with
  | nil => simp [List.kreplace]
  | cons e l ih =>
    obtain ⟨a, b⟩ := e
    by_cases ha : k = a
    · subst ha
      have hcons : List.kreplace k v (⟨k, b⟩ :: l) = ⟨k, v⟩ :: l :=
        List.lookmap_cons_some _ _ (by simp)
      rw [hcons]
      by_cases hk : k' = k
      · subst hk
        simp
      · rw [List.dlookup_cons_ne l ⟨k, v⟩ hk, List.dlookup_cons_ne l ⟨k, b⟩ hk,
          if_neg fun h => hk h.1]
    · have hcons : List.kreplace k v (⟨a, b⟩ :: l) = ⟨a, b⟩ :: List.kreplace k v l :=
        List.lookmap_cons_none _ _ (by simp [ha])
      rw [hcons]
      by_cases hk : k' = a
      · subst hk
        simp [Ne.symm ha]
      · rw [List.dlookup_cons_ne (List.kreplace k v l) ⟨a, b⟩ hk, List.dlookup_cons_ne l ⟨a, b⟩ hk,
          ih]
        simp [ha]

theorem lookup_replace_of_mem {m : Map K V} {k : K} (h : k ∈ m) (k' : K) (v : V) :
    (m.replace k v).lookup k' = if k' = k then some v else m.lookup k' := by
  have hkeys : k ∈ m.entries.keys := h
  refine (dlookup_kreplace m.entries k k' v).trans ?_
  simp only [hkeys, and_true]
  rfl

theorem lookup_foldl_insert {l : List α} {key : α → K} {val : α → V} {m : Map K V} {k : K} {v : V}
    (h : (l.foldl (fun m x => m.insert (key x) (val x)) m).lookup k = some v) :
    (∃ x ∈ l, key x = k ∧ val x = v) ∨ m.lookup k = some v := by
  induction l generalizing m with
  | nil => exact Or.inr h
  | cons a l ih =>
    rcases ih h with ⟨x, hx, hkey⟩ | h
    · exact Or.inl ⟨x, List.mem_cons_of_mem a hx, hkey⟩
    · rw [lookup_insert_eq_ite] at h
      split_ifs at h with hk
      · cases h
        exact Or.inl ⟨a, List.mem_cons_self, hk.symm, rfl⟩
      · exact Or.inr h

theorem mem_foldl_insert {l : List α} {key : α → K} {val : α → V} {m : Map K V} {k : K} :
    k ∈ l.foldl (fun m x => m.insert (key x) (val x)) m ↔ (∃ x ∈ l, key x = k) ∨ k ∈ m := by
  induction l generalizing m with
  | nil => simp
  | cons a l ih =>
    rw [List.foldl_cons, ih, AList.mem_insert]
    simp only [List.mem_cons, exists_eq_or_imp, @eq_comm K (key a) k]
    rw [or_assoc, or_left_comm]

theorem lookup_foldl_insert_of_not_mem {l : List α} {key : α → K} {val : α → V} {m : Map K V}
    {k : K} (h : ∀ x ∈ l, key x ≠ k) :
    (l.foldl (fun m x => m.insert (key x) (val x)) m).lookup k = m.lookup k := by
  induction l generalizing m with
  | nil => rfl
  | cons a l ih =>
    rw [List.foldl_cons, ih fun x hx => h x (List.mem_cons_of_mem a hx),
      AList.lookup_insert_ne (h a List.mem_cons_self).symm]

theorem exists_lookup_foldl_insert {l : List α} {key : α → K} {val : α → V} {k : K}
    (h : ∃ x ∈ l, key x = k) (m : Map K V) :
    ∃ x ∈ l, key x = k ∧
      (l.foldl (fun m x => m.insert (key x) (val x)) m).lookup k = some (val x) := by
  induction l using List.reverseRecOn with
  | nil =>
    obtain ⟨x, hx, -⟩ := h
    cases hx
  | append_singleton l a ih =>
    rw [List.foldl_append, List.foldl_cons, List.foldl_nil, lookup_insert_eq_ite]
    split_ifs with hk
    · exact ⟨a, by simp, hk.symm, rfl⟩
    · obtain ⟨x, hx, hkey⟩ := h
      have hx : x ∈ l := by
        rcases List.mem_append.mp hx with hx | hx
        · exact hx
        · rw [List.mem_singleton.mp hx] at hkey
          exact absurd hkey.symm hk
      obtain ⟨y, hy, hyk, hlookup⟩ := ih ⟨x, hx, hkey⟩
      exact ⟨y, List.mem_append_left _ hy, hyk, hlookup⟩

theorem lookup_foldl_insert_of_mem {l : List α} {key : α → K} {val : α → V} {m : Map K V} {x : α}
    (hx : x ∈ l) (h : ∀ y ∈ l, key y = key x → val y = val x) :
    (l.foldl (fun m x => m.insert (key x) (val x)) m).lookup (key x) = some (val x) := by
  obtain ⟨y, hy, hkey, hlookup⟩ := @exists_lookup_foldl_insert K V α _ l key val _ ⟨x, hx, rfl⟩ m
  rw [hlookup, h y hy hkey]

def lastly (k : K) : RangeOrder K V where
  visit m := m.entries.filter (fun e => e.1 ≠ k) ++ m.entries.filter fun e => e.1 = k
  perm m := by
    refine (List.Perm.append_left _ (List.Perm.of_eq ?_)).trans (List.filter_append_perm _ _)
    exact List.filter_congr fun e _ => by simp

theorem visit_lastly {m : Map K V} {k : K} {v : V} (h : m.lookup k = some v) :
    ∃ l, (lastly k).visit m = l ++ [⟨k, v⟩] := by
  suffices hlast : m.entries.filter (fun e => e.1 = k) = [⟨k, v⟩] from
    ⟨m.entries.filter fun e => e.1 ≠ k, by rw [← hlast]; rfl⟩
  have hall : ∀ e ∈ m.entries.filter (fun e => e.1 = k), e = ⟨k, v⟩ := by
    rintro ⟨k', v'⟩ hfilter
    obtain ⟨he, hk⟩ := List.mem_filter.mp hfilter
    obtain rfl : k' = k := of_decide_eq_true hk
    rw [lookup_eq_some_iff_mem_entries.mpr he] at h
    cases h
    rfl
  have hmem : (⟨k, v⟩ : Sigma fun _ : K => V) ∈ m.entries.filter (fun e => e.1 = k) :=
    List.mem_filter.mpr ⟨lookup_eq_some_iff_mem_entries.mp h, decide_eq_true rfl⟩
  have hnodup := (List.NodupKeys.nodup m.nodupKeys).filter fun e => decide (e.1 = k)
  rw [List.eq_replicate_of_mem hall] at hmem hnodup ⊢
  rw [List.nodup_replicate] at hnodup
  have hpos := List.length_pos_of_mem hmem
  rw [List.length_replicate] at hpos
  rw [le_antisymm hnodup hpos]
  rfl

theorem mem_of_lookup_ofList {l : List (K × V)} {k : K} {v : V}
    (h : (ofList l).lookup k = some v) : (k, v) ∈ l := by
  rw [ofList, AList.lookup_to_alist] at h
  obtain ⟨p, hp, he⟩ := List.mem_map.mp (List.of_mem_dlookup h)
  cases he
  exact hp

theorem mem_entries_ofList {l : List (K × V)} (h : (l.map Prod.fst).Nodup) {k : K} {v : V} :
    (⟨k, v⟩ : Sigma fun _ : K => V) ∈ (ofList l).entries ↔ (k, v) ∈ l := by
  have hkeys : (l.map fun p => (⟨p.1, p.2⟩ : Sigma fun _ : K => V)).NodupKeys := by
    rw [List.NodupKeys, List.keys, List.map_map]
    exact h
  rw [← lookup_eq_some_iff_mem_entries, ofList, AList.lookup_to_alist]
  refine (List.mem_dlookup_iff hkeys).trans ?_
  rw [List.mem_map]
  constructor
  · rintro ⟨p, hp, he⟩
    cases he
    exact hp
  · intro hp
    exact ⟨(k, v), hp, rfl⟩

def mapValues {W : Type*} (f : K → V → W) (m : Map K V) : Map K W :=
  ⟨m.entries.map fun p => ⟨p.1, f p.1 p.2⟩, by
    have hkeys : (m.entries.map fun p => (⟨p.1, f p.1 p.2⟩ : Sigma fun _ : K => W)).keys =
        m.entries.keys := by
      rw [List.keys, List.map_map]
      rfl
    rw [List.NodupKeys, hkeys]
    exact m.nodupKeys⟩

theorem lookup_mapValues {W : Type*} (f : K → V → W) (m : Map K V) (k : K) :
    (m.mapValues f).lookup k = (m.lookup k).map (f k) := by
  apply Option.ext
  intro w
  rw [lookup_eq_some_iff_mem_entries, Option.map_eq_some_iff]
  constructor
  · intro hw
    obtain ⟨⟨k', v⟩, hv, heq⟩ := List.mem_map.mp hw
    cases heq
    exact ⟨v, lookup_eq_some_iff_mem_entries.mpr hv, rfl⟩
  · rintro ⟨v, hv, rfl⟩
    exact List.mem_map.mpr ⟨⟨k, v⟩, lookup_eq_some_iff_mem_entries.mp hv, rfl⟩

/-- A `range` loop that deletes the entries that satisfy a condition. -/
def deleteIf (m : Map K V) (p : K → V → Bool) : Map K V :=
  (m.entries.filter fun e => p e.1 e.2).foldl (fun m e => m.erase e.1) m

theorem lookup_foldl_erase (m : Map K V) (l : List K) (k : K) :
    (l.foldl (fun m k => m.erase k) m).lookup k = if k ∈ l then none else m.lookup k := by
  induction l generalizing m with
  | nil => simp
  | cons a l ih =>
    rw [List.foldl_cons, ih]
    by_cases hk : k = a
    · subst hk
      simp
    · simp only [List.mem_cons, hk, false_or, AList.lookup_erase_ne hk]

theorem lookup_deleteIf (m : Map K V) (p : K → V → Bool) (k : K) :
    (m.deleteIf p).lookup k = (m.lookup k).filter fun v => !p k v := by
  rw [deleteIf, ← @List.foldl_map _ _ _ Sigma.fst (fun m k => AList.erase k m), lookup_foldl_erase]
  rcases hm : m.lookup k with _ | v
  · simp
  · have hex : k ∈ (m.entries.filter fun e => p e.1 e.2).map Sigma.fst ↔ p k v = true := by
      rw [List.mem_map]
      constructor
      · rintro ⟨⟨k', v'⟩, he, rfl⟩
        obtain ⟨hmem, hp⟩ := List.mem_filter.mp he
        rw [lookup_eq_some_iff_mem_entries.mpr hmem] at hm
        cases hm
        exact hp
      · intro hp
        exact ⟨⟨k, v⟩, List.mem_filter.mpr ⟨lookup_eq_some_iff_mem_entries.mp hm, hp⟩, rfl⟩
    rw [if_congr hex rfl rfl]
    cases hp : p k v with
    | false => exact (Option.filter_eq_some_iff.mpr ⟨rfl, by rw [hp]; rfl⟩).symm
    | true => exact (Option.filter_eq_none_iff.mpr (by rintro _ ⟨⟩; simp [hp])).symm

/-- The first entries of a map that is kept in the order of its list. -/
def keepFirst (m : Map K V) (n : ℕ) : Map K V :=
  ⟨m.entries.take n, m.nodupKeys.sublist (List.take_sublist n m.entries)⟩

theorem lookup_of_lookup_keepFirst {m : Map K V} {n : ℕ} {k : K} {v : V}
    (h : (m.keepFirst n).lookup k = some v) : m.lookup k = some v := by
  rw [lookup_eq_some_iff_mem_entries] at h ⊢
  exact List.mem_of_mem_take h

theorem lookup_keepFirst_insert (m : Map K V) {n : ℕ} (hn : 0 < n) (k : K) (v : V) :
    (keepFirst (m.insert k v) n).lookup k = some v := by
  rcases n with _ | n
  · exact absurd hn (Nat.lt_irrefl 0)
  · exact lookup_eq_some_iff_mem_entries.mpr List.mem_cons_self

/-- The values of a list of pairs gathered by key, in order. -/
def group (l : List (K × α)) : Map K (List α) := l.foldl (fun m p => appendAt m p.1 p.2) ∅

theorem group_concat (l : List (K × α)) (p : K × α) :
    group (l ++ [p]) = appendAt (group l) p.1 p.2 := by
  simp [group]

theorem filter_key_eq_nil {l : List (K × α)} {k : K} (h : ¬ ∃ p ∈ l, p.1 = k) :
    l.filter (·.1 = k) = [] :=
  List.filter_eq_nil_iff.mpr fun p hp he => h ⟨p, hp, of_decide_eq_true he⟩

theorem lookup_group (l : List (K × α)) (k : K) :
    (group l).lookup k =
      if ∃ p ∈ l, p.1 = k then some ((l.filter (·.1 = k)).map Prod.snd) else none := by
  induction l using List.reverseRecOn with
  | nil => simp [group]
  | append_singleton l p ih =>
    rw [group_concat, lookup_appendAt]
    by_cases hk : k = p.1
    · subst hk
      rw [if_pos rfl, if_pos ⟨p, by simp, rfl⟩, ih, List.filter_append, List.map_append]
      split_ifs with h
      · simp
      · simp [filter_key_eq_nil h]
    · have hp : ¬ p.1 = k := fun h => hk h.symm
      have hex : (∃ q ∈ l ++ [p], q.1 = k) ↔ ∃ q ∈ l, q.1 = k := by
        simp only [List.mem_append, List.mem_singleton, or_and_right, exists_or,
          exists_eq_left, hp, or_false]
      rw [if_neg hk, ih]
      refine if_congr hex.symm ?_ rfl
      simp [List.filter_append, hp]

theorem lookup_group_getD (l : List (K × α)) (k : K) :
    ((group l).lookup k).getD [] = (l.filter (·.1 = k)).map Prod.snd := by
  rw [lookup_group]
  split_ifs with h
  · rfl
  · rw [filter_key_eq_nil h]
    rfl

theorem lookup_group_flatMap {ks : List K} (hks : ks.Nodup) (f : K → List α) (k : K) :
    ((group (ks.flatMap fun k => (f k).map fun x => (k, x))).lookup k).getD [] =
      if k ∈ ks then f k else [] := by
  rw [lookup_group_getD]
  induction ks with
  | nil => rfl
  | cons a ks ih =>
    obtain ⟨ha, hks⟩ := List.nodup_cons.mp hks
    rw [List.flatMap_cons, List.filter_append, List.map_append, ih hks, List.filter_map,
      List.map_map]
    rcases eq_or_ne k a with rfl | hne
    · simp [ha, Function.comp_def]
    · simp [hne, hne.symm, Function.comp_def]

theorem group_entries_eq_nil_iff {l : List (K × α)} : (group l).entries = [] ↔ l = [] := by
  rw [entries_eq_nil_iff]
  constructor
  · intro h
    rcases l with _ | ⟨p, l⟩
    · rfl
    · have := h p.1
      rw [lookup_group, if_pos ⟨p, List.mem_cons_self, rfl⟩] at this
      cases this
  · rintro rfl k
    rfl

end Map

end Go
