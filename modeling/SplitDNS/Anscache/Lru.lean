import Mathlib.Data.List.DropRight
import SplitDNS.Anscache
import SplitDNS.Recency.Basic
import SplitDNS.Runs.Basic

/-! # The cache as a bounded recency list

Every call does one thing to the recency list of the cache: it puts an entry,
uses or drops one, clears the list or leaves it. What a lookup finds is decided
by the age of the entry that was put last, as long as fewer other keys than the
capacity have been put or hit since the key itself was.
-/

namespace SplitDNS.Anscache

open Go Dns Recency

inductive Method where
  | store (k : Key) (resp : Msg)
  | storeFail (k : Key)
  | lookup (k : Key)
  | peek (k : Key)
  | entries (n : ℤ)
  | flush

structure Call where
  method : Method
  now : Time

def classify (cfg : Config) (e : Entry) (now : Time) : Result :=
  let age := now - e.insertedAt
  match e.body with
  | .fail => if age < e.ttl then .fail else .miss
  | .answer _ msg =>
    if age < e.ttl then .fresh (decrementTTL msg age)
    else if cfg.serveStale && age < e.ttl + cfg.staleMaxAge then .stale (stampTTL msg cfg.staleTTL)
    else .miss

/-- The key and the entry that a call puts, if it does. -/
def Call.puts (cfg : Config) (call : Call) : Option (Key × Entry) :=
  match call.method with
  | .store k resp => (cacheable cfg resp).map fun (ttl, kind) =>
      (k, { body := .answer kind (Cache.kept resp), insertedAt := call.now, ttl })
  | .storeFail k => some (k, { body := .fail, insertedAt := call.now, ttl := cfg.failTTL })
  | _ => none

namespace Cache

def step (c : Cache) (call : Call) : Cache :=
  match call.method with
  | .store k resp => c.store k resp call.now
  | .storeFail k => c.storeFail k call.now
  | .lookup k => (c.lookup k call.now).1
  | .flush => c.flush
  | _ => c

def touches (c : Cache) (call : Call) : Option Key :=
  match call.method with
  | .lookup k => if (c.lookup k call.now).2 = .miss then none else some k
  | _ => (call.puts c.cfg).map Prod.fst

def op (c : Cache) (call : Call) : Op Key Entry :=
  match call.method with
  | .lookup k =>
    match c.entries.lookup k with
    | none => .keep
    | some e =>
      match classify c.cfg e call.now with
      | .miss => .drop k
      | .stale _ => .use k e
      | _ => .use k { e with hits := e.hits + 1 }
  | .flush => .clear
  | _ =>
    match call.puts c.cfg with
    | some (k, e) => .put k e
    | none => .keep

variable {c : Cache} {k : Key} {e e' : Entry} {now : Time}

theorem lookup_eq (c : Cache) (k : Key) (now : Time) :
    (c.lookup k now).2 = (c.entries.lookup k).elim .miss (classify c.cfg · now) ∧
      (c.lookup k now).1.entries = (c.op ⟨.lookup k, now⟩).apply c.cfg.maxEntries.toNat c.entries ∧
      (c.lookup k now).1.cfg = c.cfg := by
  rcases he : c.entries.lookup k with _ | e
  · simp [lookup, op, he, Op.apply]
  · rcases hb : e.body with ⟨kind, msg⟩ | _
    · by_cases hfresh : now - e.insertedAt < e.ttl
      · simp [lookup, op, he, classify, hb, hfresh, Op.apply, moveToFront]
      · by_cases hstale : c.cfg.serveStale = true ∧ now - e.insertedAt < e.ttl + c.cfg.staleMaxAge
        · simp [lookup, op, he, classify, hb, hfresh, hstale, Op.apply, moveToFront]
        · simp [lookup, op, he, classify, hb, hfresh, hstale, Op.apply, drop]
    · by_cases hfail : now - e.insertedAt < e.ttl
      · simp [lookup, op, he, classify, hb, hfail, Op.apply, moveToFront]
      · simp [lookup, op, he, classify, hb, hfail, Op.apply, drop]

theorem step_eq (c : Cache) (call : Call) :
    (c.step call).entries = (c.op call).apply c.cfg.maxEntries.toNat c.entries ∧
      (c.step call).cfg = c.cfg := by
  obtain ⟨method, now⟩ := call
  cases method with
  | store k resp =>
    rcases hc : cacheable c.cfg resp with _ | ⟨ttl, kind⟩
    · simp [step, op, Call.puts, store, hc, Op.apply]
    · simp [step, op, Call.puts, store, hc, Op.apply, put]
  | storeFail k => exact ⟨rfl, rfl⟩
  | lookup k => exact (lookup_eq c k now).2
  | peek k => exact ⟨rfl, rfl⟩
  | entries n => exact ⟨rfl, rfl⟩
  | flush => exact ⟨rfl, rfl⟩

theorem touches_eq (c : Cache) (call : Call) : c.touches call = (c.op call).touched := by
  obtain ⟨method, now⟩ := call
  cases method with
  | store k resp =>
    rcases hc : cacheable c.cfg resp with _ | ⟨ttl, kind⟩
    · simp [touches, op, Call.puts, hc, Op.touched]
    · simp [touches, op, Call.puts, hc, Op.touched]
  | storeFail k => rfl
  | lookup k =>
    rcases he : c.entries.lookup k with _ | e
    · simp [touches, (lookup_eq c k now).1, op, he, Op.touched]
    · cases hr : classify c.cfg e now <;>
        simp [touches, (lookup_eq c k now).1, op, he, hr, Op.touched]
  | peek k => rfl
  | entries n => rfl
  | flush => rfl

end Cache

structure Entry.Same (e e' : Entry) : Prop where
  body : e.body = e'.body
  insertedAt : e.insertedAt = e'.insertedAt
  ttl : e.ttl = e'.ttl

theorem classify_congr {cfg : Config} {e e' : Entry} (h : e.Same e') (now : Time) :
    classify cfg e now = classify cfg e' now := by
  rw [classify, classify, h.body, h.insertedAt, h.ttl]

theorem classify_miss_mono {cfg : Config} {e : Entry} {now now' : Time} (hle : now ≤ now')
    (h : classify cfg e now = .miss) : classify cfg e now' = .miss := by
  have hage : ∀ d : Duration, ¬ now - e.insertedAt < d → ¬ now' - e.insertedAt < d :=
    fun d hd hd' => hd (Int.lt_of_le_of_lt (Int.sub_le_sub_right hle _) hd')
  unfold classify at h ⊢
  rcases hb : e.body with ⟨kind, msg⟩ | _
  · simp only [hb] at h ⊢
    split_ifs at h with hfresh hstale
    rw [if_neg (hage _ hfresh), if_neg]
    simp only [Bool.and_eq_true, decide_eq_true_eq, not_and] at hstale ⊢
    exact fun hs => hage _ (hstale hs)
  · simp only [hb] at h ⊢
    split_ifs at h with hfail
    exact if_neg (hage _ hfail)

/-- The entry that counts as put last under a key after a call, given the one before it. -/
def Call.lastPut (cfg : Config) (k : Key) (last : Option Entry) (call : Call) : Option Entry :=
  match call.method with
  | .flush => none
  | _ =>
    match call.puts cfg with
    | some (k', e) => if k' = k then some e else last
    | none => last

theorem Call.lastPut_of_not_flush {cfg : Config} {k : Key} {last : Option Entry} {call : Call}
    (hf : call.method ≠ .flush) :
    call.lastPut cfg k last =
      (call.puts cfg).elim last fun p => if p.1 = k then some p.2 else last := by
  unfold Call.lastPut
  split
  · exact absurd ‹_› hf
  · rcases call.puts cfg with _ | p <;> rfl

/-- The entry that was put last under a key, unless a flush came later. -/
def lastPut (cfg : Config) (k : Key) (calls : List Call) : Option Entry :=
  calls.foldl (Call.lastPut cfg k) none

/-- The keys of a list that come after the last occurrence of a key. -/
def since (k : Key) (touched : List (Option Key)) : List Key :=
  (touched.rtakeWhile (· ≠ some k)).filterMap id

namespace Cache

variable {c : Cache} {k : Key} {e e' : Entry} {now : Time} {call : Call}
  {past : List (Cache × Call)}

def touched (past : List (Cache × Call)) : List (Option Key) :=
  past.map fun p => p.1.touches p.2

theorem op_of_not_lookup (hm : ∀ k', call.method ≠ .lookup k') (hf : call.method ≠ .flush) :
    c.op call = (call.puts c.cfg).elim .keep fun p => .put p.1 p.2 := by
  obtain ⟨method, now⟩ := call
  cases method with
  | store k resp =>
    rcases hc : cacheable c.cfg resp with _ | ⟨ttl, kind⟩
    · simp [op, Call.puts, hc]
    · simp [op, Call.puts, hc]
  | storeFail k => rfl
  | lookup k => exact absurd rfl (hm k)
  | peek k => rfl
  | entries n => rfl
  | flush => exact absurd rfl hf

theorem op_lookup (c : Cache) (k : Key) (now : Time) :
    c.op ⟨.lookup k, now⟩ = .keep ∨ ∃ e, c.entries.lookup k = some e ∧
      ((∃ e', e'.Same e ∧ c.op ⟨.lookup k, now⟩ = .use k e') ∨
        (classify c.cfg e now = .miss ∧ c.op ⟨.lookup k, now⟩ = .drop k)) := by
  rcases he : c.entries.lookup k with _ | e
  · exact Or.inl (by simp [op, he])
  · refine Or.inr ⟨e, rfl, ?_⟩
    cases hr : classify c.cfg e now with
    | miss => exact Or.inr ⟨rfl, by simp [op, he, hr]⟩
    | fresh msg =>
      exact Or.inl ⟨{ e with hits := e.hits + 1 }, ⟨rfl, rfl, rfl⟩, by simp only [op, he, hr]⟩
    | stale msg => exact Or.inl ⟨e, ⟨rfl, rfl, rfl⟩, by simp only [op, he, hr]⟩
    | fail =>
      exact Or.inl ⟨{ e with hits := e.hits + 1 }, ⟨rfl, rfl, rfl⟩, by simp only [op, he, hr]⟩

theorem mem_of_op_use (h : c.op call = .use k e) : k ∈ c.entries := by
  obtain ⟨method, now⟩ := call
  by_cases hl : ∃ k', method = .lookup k'
  · obtain ⟨k', rfl⟩ := hl
    rcases op_lookup c k' now with hop | ⟨e₁, he₁, ⟨e₂, -, hop⟩ | ⟨-, hop⟩⟩
    · rw [hop] at h
      cases h
    · rw [hop] at h
      cases h
      exact Map.mem_of_lookup he₁
    · rw [hop] at h
      cases h
  · by_cases hf : method = .flush
    · subst hf
      cases h
    · rw [op_of_not_lookup (fun k' hk' => hl ⟨k', hk'⟩) hf] at h
      rcases hp : Call.puts c.cfg ⟨method, now⟩ with _ | p
      · rw [hp] at h
        cases h
      · rw [hp] at h
        cases h

theorem touched_concat (past : List (Cache × Call)) (c : Cache) (call : Call) :
    touched (past ++ [(c, call)]) = touched past ++ [(c.op call).touched] := by
  rw [touched, List.map_append, ← touches_eq]
  rfl

theorem since_concat (k : Key) (l : List (Option Key)) (o : Option Key) :
    since k (l ++ [o]) = if o = some k then [] else since k l ++ o.toList := by
  rw [since, List.rtakeWhile_concat]
  by_cases ho : o = some k
  · simp [ho]
  · rw [if_pos (by simpa using ho), if_neg ho, List.filterMap_append]
    cases o <;> rfl

/-- What is known of the entry that was put last under a key: no other is found, and it is found,
with none but the keys touched since in front of it, unless it is of no use any more. -/
structure Tracks (cfg : Config) (k : Key) (past : List (Cache × Call)) (c : Cache) (e : Entry) :
    Prop where
  same : ∀ x, c.entries.lookup k = some x → x.Same e
  found : (since k (touched past)).toFinset.card < cfg.maxEntries.toNat →
    (k ∈ c.entries ∧ ∀ x ∈ ahead c.entries k, x ∈ since k (touched past)) ∨
      ∀ now, (∀ p ∈ past, p.2.now ≤ now) → classify cfg e now = .miss

variable {cfg : Config}

theorem Tracks.step (ht : Tracks cfg k past c e) (hcfg : c.cfg = cfg) (hclear : c.op call ≠ .clear)
    (hgiven : ∀ x, (c.op call).given k = some x → ∃ e', c.entries.lookup k = some e' ∧ x.Same e')
    (hdrop : c.op call = .drop k →
      ∃ e', c.entries.lookup k = some e' ∧ classify cfg e' call.now = .miss) :
    Tracks cfg k (past ++ [(c, call)]) (c.step call) e := by
  have hentries := (step_eq c call).1
  rw [hcfg] at hentries
  constructor
  · intro x hx
    rw [hentries] at hx
    rcases Recency.lookup_apply hx with hg | hold
    · obtain ⟨e', he', hsame⟩ := hgiven x hg
      have hput := ht.same e' he'
      exact ⟨hsame.body.trans hput.body, hsame.insertedAt.trans hput.insertedAt,
        hsame.ttl.trans hput.ttl⟩
    · exact ht.same x hold
  · intro hcard
    rw [hentries]
    rw [touched_concat, since_concat] at hcard ⊢
    by_cases hk : (c.op call).touched = some k
    · rw [if_pos hk] at hcard ⊢
      obtain ⟨hmem, hfront⟩ := apply_front (Nat.zero_lt_of_lt hcard) hk
      exact Or.inl ⟨hmem, fun x hx => hfront ▸ hx⟩
    · rw [if_neg hk] at hcard ⊢
      have hle : (since k (touched past)).toFinset.card ≤
          (since k (touched past) ++ (c.op call).touched.toList).toFinset.card := by
        rw [List.toFinset_append]
        exact Finset.card_le_card Finset.subset_union_left
      rcases ht.found (hle.trans_lt hcard) with ⟨hin, hahead⟩ | hdead
      · by_cases hd : c.op call = .drop k
        · obtain ⟨e', he', hmiss⟩ := hdrop hd
          right
          intro now hnow
          rw [← classify_congr (ht.same e' he')]
          exact classify_miss_mono (hnow (c, call) (by simp)) hmiss
        · left
          obtain ⟨hfound, hahead'⟩ := apply_stays hcard
            (fun x hx => List.mem_toFinset.mpr (List.mem_append_left _ (hahead x hx))) hclear hd
            fun x hx => Or.inr (List.mem_toFinset.mpr
              (List.mem_append_right _ (Option.mem_toList.mpr hx)))
          refine ⟨?_, fun x hx => List.mem_toFinset.mp (hahead' x hx)⟩
          rw [← AList.lookup_isSome, hfound, Option.isSome_or, AList.lookup_isSome.mpr hin,
            Bool.or_true]
      · exact Or.inr fun now hnow => hdead now fun p hp => hnow p (List.mem_append_left _ hp)

theorem Tracks.keep (ht : Tracks cfg k past c e) (hcfg : c.cfg = cfg) (hclear : c.op call ≠ .clear)
    (hgiven : (c.op call).given k = none) (hdrop : c.op call ≠ .drop k) :
    Tracks cfg k (past ++ [(c, call)]) (c.step call) e := by
  refine ht.step hcfg hclear (fun x hx => ?_) fun hd => absurd hd hdrop
  rw [hgiven] at hx
  cases hx

theorem Tracks.lookup (ht : Tracks cfg k past c e) (hcfg : c.cfg = cfg) (k' : Key) (now : Time) :
    Tracks cfg k (past ++ [(c, ⟨.lookup k', now⟩)]) (c.step ⟨.lookup k', now⟩) e := by
  rcases op_lookup c k' now with hop | ⟨e₁, he₁, ⟨e₂, hsame, hop⟩ | ⟨hmiss, hop⟩⟩
  · exact ht.keep hcfg (by simp [hop]) (by rw [hop]; rfl) (by simp [hop])
  · refine ht.step hcfg (by simp [hop]) (fun x hx => ?_) fun hd => ?_
    · rw [hop, Op.given] at hx
      split_ifs at hx with hk
      cases hx
      exact ⟨e₁, hk ▸ he₁, hsame⟩
    · rw [hop] at hd
      cases hd
  · refine ht.step hcfg (by simp [hop]) (fun x hx => ?_) fun hd => ?_
    · rw [hop] at hx
      cases hx
    · rw [hop] at hd
      cases hd
      exact ⟨e₁, he₁, hcfg ▸ hmiss⟩

theorem tracks_of_put (hcfg : c.cfg = cfg) (hpos : 0 < cfg.maxEntries)
    (hop : c.op call = .put k e) : Tracks cfg k (past ++ [(c, call)]) (c.step call) e := by
  have hentries := (step_eq c call).1
  have hn : 0 < cfg.maxEntries.toNat := by omega
  rw [hcfg, hop] at hentries
  obtain ⟨hmem, hfront⟩ := apply_front hn (rfl : (Op.put k e).touched = some k)
  constructor
  · intro x hx
    rw [hentries, Op.apply, Map.lookup_keepFirst_insert _ hn] at hx
    cases hx
    exact ⟨rfl, rfl, rfl⟩
  · intro _
    rw [hentries]
    exact Or.inl ⟨hmem, fun x hx => by rw [hfront] at hx; cases hx⟩

/-- The cache keeps track of what was put last under a key. -/
def Tracked (cfg : Config) (k : Key) (past : List (Cache × Call)) (c : Cache) : Prop :=
  c.cfg = cfg ∧ ∀ e, lastPut cfg k (past.map Prod.snd) = some e → Tracks cfg k past c e

theorem step_tracked (hpos : 0 < cfg.maxEntries) (ht : Tracked cfg k past c) (call : Call) :
    Tracked cfg k (past ++ [(c, call)]) (c.step call) := by
  obtain ⟨hcfg, ht⟩ := ht
  refine ⟨(step_eq c call).2.trans hcfg, fun e he => ?_⟩
  rw [List.map_append, lastPut, List.foldl_append, ← lastPut] at he
  change call.lastPut cfg k (lastPut cfg k (past.map Prod.snd)) = some e at he
  by_cases hf : call.method = .flush
  · simp [Call.lastPut, hf] at he
  by_cases hl : ∃ k', call.method = .lookup k'
  · obtain ⟨k', hl⟩ := hl
    obtain ⟨method, now⟩ := call
    obtain rfl : method = .lookup k' := hl
    exact (ht e he).lookup hcfg k' now
  · have hop := @op_of_not_lookup c call (fun k' hk' => hl ⟨k', hk'⟩) hf
    rw [Call.lastPut_of_not_flush hf] at he
    rw [hcfg] at hop
    rcases hp : call.puts cfg with _ | ⟨k', e'⟩
    · rw [hp] at he hop
      exact (ht e he).keep hcfg (by simp [hop]) (by rw [hop]; rfl) (by simp [hop])
    · rw [hp] at he hop
      dsimp only [Option.elim] at he hop
      rcases eq_or_ne k' k with rfl | hne
      · rw [if_pos rfl] at he
        cases he
        exact tracks_of_put hcfg hpos hop
      · rw [if_neg hne] at he
        have hgiven : (c.op call).given k = none := by rw [hop, Op.given, if_neg hne.symm]
        exact (ht e he).keep hcfg (by simp [hop]) hgiven (by simp [hop])

theorem run_tracked (cfg : Config) (k : Key) (calls : List Call) :
    Tracked cfg.resolved k (Runs.trace step (new cfg) calls) (calls.foldl step (new cfg)) := by
  refine @Runs.inv_of_always _ _ step (new cfg) (Tracked cfg.resolved k) (fun _ _ _ => True)
    ⟨rfl, fun e he => by cases he⟩ ?_ calls fun _ _ _ _ => trivial
  exact fun past c call ht _ => step_tracked (resolved_maxEntries_pos cfg) ht call

theorem lookup_lastPut {cfg : Config} {calls : List Call}
    (hnow : ∀ call ∈ calls, call.now ≤ now) (hput : lastPut cfg.resolved k calls = some e)
    (hothers : (since k (touched (Runs.trace step (new cfg) calls))).toFinset.card <
      cfg.resolved.maxEntries.toNat) :
    ((calls.foldl step (new cfg)).lookup k now).2 = classify cfg.resolved e now := by
  obtain ⟨hcfg, ht⟩ := run_tracked cfg k calls
  rw [Runs.map_snd_trace] at ht
  have ht := ht e hput
  rw [(lookup_eq _ k now).1, hcfg]
  rcases hl : (calls.foldl step (new cfg)).entries.lookup k with _ | x
  · rcases ht.found hothers with ⟨hin, -⟩ | hdead
    · rw [← AList.lookup_isSome, hl] at hin
      cases hin
    · refine (hdead now fun p hp => hnow p.2 ?_).symm
      rw [← @Runs.map_snd_trace _ _ step (new cfg) calls]
      exact List.mem_map_of_mem hp
  · exact classify_congr (ht.same x hl) now

theorem run_length_le (cfg : Config) (calls : List Call) :
    (calls.foldl step (new cfg)).cfg = cfg.resolved ∧
      (calls.foldl step (new cfg)).entries.entries.length ≤ cfg.resolved.maxEntries.toNat := by
  refine @Runs.inv_foldl _ _ step (new cfg)
    (fun _ c => c.cfg = cfg.resolved ∧ c.entries.entries.length ≤ cfg.resolved.maxEntries.toNat)
    ⟨rfl, Nat.zero_le _⟩ ?_ calls
  rintro _ c call ⟨hcfg, hlen⟩
  obtain ⟨hentries, hcfg'⟩ := step_eq c call
  refine ⟨hcfg'.trans hcfg, ?_⟩
  rw [hentries, hcfg]
  exact length_apply_le hlen fun k e huse => mem_of_op_use huse

end Cache

end SplitDNS.Anscache
