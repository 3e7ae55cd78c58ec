import Mathlib.Algebra.BigOperators.Group.List.Basic
import Mathlib.Algebra.GroupWithZero.Nat
import Mathlib.Algebra.Order.BigOperators.Group.List
import Mathlib.Data.List.Basic
import Mathlib.Data.List.Nodup
import Mathlib.Data.List.Range
import Mathlib.Data.Nat.Find

/-! # Walks over pages

A list that is served page by page, and the client that asks for one page after
the other until it has seen the last one. The list may change between two
requests: items are removed, and new ones are added at its end.
-/

namespace Paging

variable {α β ε : Type*}

/-- A page, with the number of pages if the server tells it. -/
structure Page (α : Type*) where
  items : List α
  totalPages : Option ℤ

/-- The client stops at a page without a number, at the last page, and at an empty one. -/
def Page.isLast (p : Page α) (n : ℕ) : Bool :=
  (p.totalPages.all fun total => decide (total ≤ (n : ℤ))) || p.items.isEmpty

/-- The walk from a page on. Without fuel it has not come to an end. -/
def drain (get : ℕ → Except ε (Page α)) : ℕ → ℕ → List α → Option (Except ε (List α))
  | 0, _, _ => none
  | fuel + 1, n, acc =>
    match get n with
    | .error e => some (.error e)
    | .ok p =>
      if p.isLast n then some (.ok (acc ++ p.items)) else drain get fuel (n + 1) (acc ++ p.items)

/-- The page of a list, for a server that puts `per` items on a page. -/
def pageOf (per : ℕ) (l : List α) (n : ℕ) : Page α where
  items := (l.drop ((n - 1) * per)).take per
  totalPages := some ((l.length + per - 1) / per : ℕ)

def seen (per : ℕ) (list : ℕ → List α) (m : ℕ) : List α :=
  (List.range' 1 m).flatMap fun n => (pageOf per (list n) n).items

section Walk

variable {get : ℕ → Except ε (Page α)} {pages : ℕ → Page α} {per : ℕ} {l : List α}

theorem drain_eq {m : ℕ} (hlast : (pages m).isLast m = true) (fuel n : ℕ) (acc : List α)
    (hget : ∀ k, n ≤ k → k ≤ m → get k = .ok (pages k))
    (hmore : ∀ k, n ≤ k → k < m → (pages k).isLast k = false) (hn : n ≤ m) (hfuel : m < n + fuel) :
    drain get fuel n acc =
      some (.ok (acc ++ (List.range' n (m + 1 - n)).flatMap fun k => (pages k).items)) := by
  induction fuel generalizing n acc with
  | zero => omega
  | succ fuel ih =>
    rw [drain, hget n le_rfl hn]
    rcases Nat.eq_or_lt_of_le hn with rfl | hlt
    · simp [hlast]
    · have hrange : List.range' n (m + 1 - n) = n :: List.range' (n + 1) (m + 1 - (n + 1)) := by
        rw [show m + 1 - n = m + 1 - (n + 1) + 1 by omega, List.range'_succ]
      have hrest := ih (n + 1) (acc ++ (pages n).items) (fun k hk => hget k (by omega))
        (fun k hk => hmore k (by omega)) hlt (by omega)
      simp only [hmore n le_rfl hlt, Bool.false_eq_true, if_false, hrest, hrange,
        List.flatMap_cons, List.append_assoc]

theorem drain_congr {get' : ℕ → Except ε (Page α)} (fuel n : ℕ) (acc : List α)
    (h : ∀ k, n ≤ k → k < n + fuel → get k = get' k) :
    drain get fuel n acc = drain get' fuel n acc := by
  induction fuel generalizing n acc with
  | zero => rfl
  | succ fuel ih =>
    simp only [drain, h n le_rfl (by omega)]
    split
    · rfl
    · rw [ih (n + 1) _ fun k hk hlt => h k (by omega) (by omega)]

theorem isLast_pageOf (hper : 0 < per) {n : ℕ} (hn : l.length ≤ n * per) :
    (pageOf per l n).isLast n = true := by
  have hle : (l.length + per - 1) / per ≤ n := by
    rw [Nat.div_le_iff_le_mul_add_pred hper, Nat.mul_comm per n]
    omega
  simp only [Page.isLast, pageOf, Option.all_some, Bool.or_eq_true, decide_eq_true_eq]
  exact Or.inl (by exact_mod_cast hle)

theorem length_le_of_isLast (hper : 0 < per) {n : ℕ}
    (h : (pageOf per l n).isLast n = true) : l.length ≤ n * per := by
  simp only [Page.isLast, pageOf, Option.all_some, Bool.or_eq_true, decide_eq_true_eq,
    List.isEmpty_iff] at h
  rcases h with h | h
  · have hle : (l.length + per - 1) / per ≤ n := by exact_mod_cast h
    rw [Nat.div_le_iff_le_mul_add_pred hper, Nat.mul_comm per n] at hle
    omega
  · have hdrop : l.drop ((n - 1) * per) = [] := by
      rcases List.take_eq_nil_iff.mp h with h | h
      · omega
      · exact h
    have hle := List.drop_eq_nil_iff.mp hdrop
    exact hle.trans (Nat.mul_le_mul_right per (Nat.sub_le n 1))

/-- A walk over a list that is never longer than `N` pages ends at the first page that is the last
one when it is asked for. -/
theorem exists_drain (hper : 0 < per) {list : ℕ → List α} {N : ℕ} (hN : 1 ≤ N)
    (hlength : ∀ n, (list n).length ≤ N * per) :
    ∃ m, 1 ≤ m ∧ m ≤ N ∧ (list m).length ≤ m * per ∧
      drain (fun n => (.ok (pageOf per (list n) n) : Except ε (Page α))) N 1 [] =
        some (.ok (seen per list m)) := by
  have hex : ∃ m, 1 ≤ m ∧ (pageOf per (list m) m).isLast m = true :=
    ⟨N, hN, isLast_pageOf hper (hlength N)⟩
  let m := Nat.find hex
  obtain ⟨hm, hlast⟩ := Nat.find_spec hex
  have hmN : m ≤ N := Nat.find_min' hex ⟨hN, isLast_pageOf hper (hlength N)⟩
  refine ⟨m, hm, hmN, length_le_of_isLast hper hlast, ?_⟩
  have hmore : ∀ k, 1 ≤ k → k < m → (pageOf per (list k) k).isLast k = false := fun k hk hkm => by
    simpa [hk] using Nat.find_min hex hkm
  have h := @drain_eq _ ε (fun n => .ok (pageOf per (list n) n)) (fun n => pageOf per (list n) n) m
    hlast N 1 [] (fun _ _ _ => rfl) hmore hm (by omega)
  simpa [seen] using h

end Walk

theorem seen_succ (per : ℕ) (list : ℕ → List α) (m : ℕ) :
    seen per list (m + 1) = seen per list m ++ ((list (m + 1)).drop (m * per)).take per := by
  simp [seen, List.range'_concat, pageOf, Nat.add_comm 1 m]

theorem map_seen (f : α → β) (per : ℕ) (list : ℕ → List α) (m : ℕ) :
    (seen per list m).map f = seen per (fun n => (list n).map f) m := by
  simp [seen, pageOf, List.map_flatMap, List.map_take, List.map_drop]

theorem exists_mem_of_mem_seen {per : ℕ} {list : ℕ → List α} {m : ℕ} {x : α}
    (h : x ∈ seen per list m) : ∃ n, 1 ≤ n ∧ n ≤ m ∧ x ∈ list n := by
  obtain ⟨n, hn, hx⟩ := List.mem_flatMap.mp h
  obtain ⟨hle, hlt⟩ := List.mem_range'_1.mp hn
  exact ⟨n, hle, by omega, List.mem_of_mem_drop (List.mem_of_mem_take hx)⟩

/-- The pages of a list that does not change are its beginning. -/
theorem seen_const (per : ℕ) (l : List α) (m : ℕ) : seen per (fun _ => l) m = l.take (m * per) := by
  induction m with
  | zero => simp [seen]
  | succ m ih => rw [seen_succ, ih, Nat.succ_mul, List.take_add]

/-! ## Lists that change between two requests -/

section Changes

variable [DecidableEq α] {list : ℕ → List α} {per : ℕ}

/-- From one request to the next, items are removed, and items never seen before are added at the
end. -/
structure Evolves (list : ℕ → List α) : Prop where
  nodup : ∀ n, (list n).Nodup
  next : ∀ n, ∃ new, list (n + 1) = (list n).filter (· ∈ list (n + 1)) ++ new ∧
    ∀ x ∈ new, ∀ k ≤ n, x ∉ list k

/-- The items removed before the request for a page, each counted when it goes. -/
def removed (list : ℕ → List α) (m : ℕ) : ℕ :=
  ((List.range' 1 (m - 1)).map fun n => ((list n).filter (· ∉ list (n + 1))).length).sum

theorem removed_succ (list : ℕ → List α) {m : ℕ} (hm : 1 ≤ m) :
    removed list (m + 1) = removed list m + ((list m).filter (· ∉ list (m + 1))).length := by
  obtain ⟨m, rfl⟩ : ∃ k, m = k + 1 := ⟨m - 1, by omega⟩
  simp [removed, List.range'_concat, Nat.add_comm 1 m]

omit [DecidableEq α] in
/-- Removing items moves the first ones of what is left up by no more than was removed. -/
theorem take_filter_sublist (p : α → Bool) (l : List α) (n : ℕ) :
    ((l.filter p).take n).Sublist (l.take (n + (l.filter fun x => !p x).length)) := by
  induction l generalizing n with
  | nil => simp
  | cons a l ih =>
    by_cases hp : p a = true
    · cases n with
      | zero => simp
      | succ n =>
        have hadd : n + 1 + (l.filter fun x => !p x).length =
          n + (l.filter fun x => !p x).length + 1 := by omega
        simpa [List.filter_cons, hp, hadd] using ih n
    · have hrest : ((l.filter p).take n).Sublist
          (a :: l.take (n + (l.filter fun x => !p x).length)) := (ih n).cons a
      simpa [List.filter_cons, hp, ← Nat.add_assoc] using hrest

omit [DecidableEq α] in
theorem mem_take_filter {p : α → Bool} {l : List α} {n : ℕ} {x : α} (h : x ∈ l.take n)
    (hp : p x = true) : x ∈ (l.filter p).take n := by
  have hsplit : l.filter p = (l.take n).filter p ++ (l.drop n).filter p := by
    rw [← List.filter_append, List.take_append_drop]
  have hlength : ((l.take n).filter p).length ≤ n :=
    (List.length_filter_le _ _).trans (List.length_take_le n l)
  rw [hsplit, List.take_append, List.take_of_length_le hlength]
  exact List.mem_append_left _ (List.mem_filter.mpr ⟨h, hp⟩)

/-- What holds after the request for a page: what was seen and is still there is among the first
items, nothing was seen twice, and of the items that were there from the start, among the first
ones no more are missing than were removed. -/
structure Walked (per : ℕ) (list : ℕ → List α) (m : ℕ) : Prop where
  listed : ∀ x ∈ seen per list m, ∃ k ≤ m, x ∈ list k
  kept : ∀ x ∈ seen per list m, x ∈ list m → x ∈ (list m).take (m * per)
  nodup : (seen per list m).Nodup
  missed : (((list m).take (m * per)).filter fun x =>
    x ∈ list 1 ∧ x ∉ seen per list m).length ≤ removed list m

theorem walked_one (h : Evolves list) : Walked per list 1 := by
  have hseen : seen per list 1 = (list 1).take per := by simp [seen, pageOf]
  refine ⟨?_, ?_, ?_, ?_⟩
  · rw [hseen]
    exact fun x hx => ⟨1, le_rfl, List.mem_of_mem_take hx⟩
  · rw [hseen, Nat.one_mul]
    exact fun x hx _ => hx
  · rw [hseen]
    exact (h.nodup 1).sublist (List.take_sublist _ _)
  · rw [hseen, Nat.one_mul, List.filter_eq_nil_iff.mpr]
    · exact Nat.zero_le _
    · simp +contextual

/-- An item seen before a change and left by it is still among the first items. -/
theorem Walked.mem_take {m : ℕ} (hw : Walked per list m) (h : Evolves list) {x : α}
    (hseen : x ∈ seen per list m) (hx : x ∈ list (m + 1)) :
    x ∈ (list (m + 1)).take (m * per) := by
  obtain ⟨new, hnext, hfresh⟩ := h.next m
  obtain ⟨k, hk, hxk⟩ := hw.listed x hseen
  have hold : x ∈ (list m).filter (· ∈ list (m + 1)) := by
    have hmem := hx
    rw [hnext] at hmem
    rcases List.mem_append.mp hmem with hmem | hmem
    · exact hmem
    · exact absurd hxk (hfresh x hmem k hk)
  have htake := mem_take_filter (hw.kept x hseen (List.mem_of_mem_filter hold))
    (List.of_mem_filter hold)
  rw [hnext, List.take_append]
  exact List.mem_append_left _ htake

theorem Walked.missed_le {m : ℕ} (hm : 1 ≤ m) (hw : Walked per list m) (h : Evolves list) :
    (((list (m + 1)).take (m * per)).filter fun x =>
      x ∈ list 1 ∧ x ∉ seen per list m).length ≤ removed list (m + 1) := by
  obtain ⟨new, hnext, hfresh⟩ := h.next m
  let p : α → Bool := fun x => x ∈ list 1 ∧ x ∉ seen per list m
  have hnew : (new.take (m * per - ((list m).filter (· ∈ list (m + 1))).length)).filter p = [] := by
    refine List.filter_eq_nil_iff.mpr fun x hx => ?_
    simp [p, hfresh x (List.mem_of_mem_take hx) 1 hm]
  have hsplit : ((list (m + 1)).take (m * per)).filter p =
      (((list m).filter (· ∈ list (m + 1))).take (m * per)).filter p := by
    conv_lhs => rw [hnext, List.take_append, List.filter_append, hnew, List.append_nil]
  have hgone : ((list m).filter fun x => !decide (x ∈ list (m + 1))).length =
      ((list m).filter (· ∉ list (m + 1))).length := by simp
  have hsub := (take_filter_sublist (fun x => decide (x ∈ list (m + 1))) (list m)
    (m * per)).filter p
  rw [hgone, List.take_add, List.filter_append] at hsub
  have hrest : ((((list m).drop (m * per)).take
      ((list m).filter (· ∉ list (m + 1))).length).filter p).length ≤
      ((list m).filter (· ∉ list (m + 1))).length :=
    (List.length_filter_le _ _).trans (List.length_take_le _ _)
  calc (((list (m + 1)).take (m * per)).filter p).length
      ≤ (((list m).take (m * per)).filter p).length +
          ((list m).filter (· ∉ list (m + 1))).length := by
        rw [hsplit]
        refine hsub.length_le.trans ?_
        rw [List.length_append]
        exact Nat.add_le_add_left hrest _
    _ ≤ removed list m + ((list m).filter (· ∉ list (m + 1))).length :=
        Nat.add_le_add_right hw.missed _
    _ = removed list (m + 1) := (removed_succ list hm).symm

theorem Walked.succ {m : ℕ} (hm : 1 ≤ m) (hw : Walked per list m) (h : Evolves list) :
    Walked per list (m + 1) := by
  have htake : (list (m + 1)).take ((m + 1) * per) =
      (list (m + 1)).take (m * per) ++ ((list (m + 1)).drop (m * per)).take per := by
    rw [Nat.succ_mul, List.take_add]
  have hnodup : ((list (m + 1)).take (m * per) ++
      ((list (m + 1)).drop (m * per)).take per).Nodup :=
    htake ▸ (h.nodup (m + 1)).sublist (List.take_sublist _ _)
  refine ⟨fun x hx => ?_, fun x hx hmem => ?_, ?_, ?_⟩
  · rw [seen_succ] at hx
    rcases List.mem_append.mp hx with hx | hx
    · obtain ⟨k, hk, hxk⟩ := hw.listed x hx
      exact ⟨k, by omega, hxk⟩
    · exact ⟨m + 1, le_rfl, List.mem_of_mem_drop (List.mem_of_mem_take hx)⟩
  · rw [seen_succ] at hx
    rw [htake]
    rcases List.mem_append.mp hx with hx | hx
    · exact List.mem_append_left _ (hw.mem_take h hx hmem)
    · exact List.mem_append_right _ hx
  · rw [seen_succ]
    refine List.nodup_append'.mpr ⟨hw.nodup, (List.nodup_append'.mp hnodup).2.1, ?_⟩
    intro x hx hpage
    have hmem : x ∈ list (m + 1) := List.mem_of_mem_drop (List.mem_of_mem_take hpage)
    exact (List.nodup_append'.mp hnodup).2.2 (hw.mem_take h hx hmem) hpage
  · -- the new page was just seen, and the items before it are those of the page before
    have hpage : (((list (m + 1)).drop (m * per)).take per).filter (fun x =>
        x ∈ list 1 ∧ x ∉ seen per list (m + 1)) = [] := by
      refine List.filter_eq_nil_iff.mpr fun x hx => ?_
      simp [seen_succ, hx]
    rw [htake, List.filter_append, hpage, List.append_nil]
    refine le_trans (List.Sublist.length_le (List.monotone_filter_right _ fun x hx => ?_))
      (hw.missed_le hm h)
    simp only [decide_eq_true_eq, seen_succ, List.mem_append, not_or] at hx ⊢
    exact ⟨hx.1, hx.2.1⟩

theorem walked (h : Evolves list) {m : ℕ} (hm : 1 ≤ m) : Walked per list m := by
  induction m, hm using Nat.le_induction with
  | base => exact walked_one h
  | succ m hm ih => exact ih.succ hm h

/-- Of the items that were there from the first request to the last, a walk that came to the end
misses no more than were removed meanwhile. -/
theorem missed_le_removed (h : Evolves list) {m : ℕ} (hm : 1 ≤ m)
    (hend : (list m).length ≤ m * per) :
    ((list m).filter fun x => x ∈ list 1 ∧ x ∉ seen per list m).length ≤ removed list m := by
  have hmissed := (walked h hm : Walked per list m).missed
  rwa [List.take_of_length_le hend] at hmissed

end Changes

end Paging
