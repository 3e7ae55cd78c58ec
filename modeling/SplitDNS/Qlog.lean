import SplitDNS.Go.Counters
import SplitDNS.Go.Float
import SplitDNS.Go.MapSize
import SplitDNS.Go.Netip
import SplitDNS.Runs.Basic
import SplitDNS.Wheel.Basic

/-! # The query log

A ring of the most recent queries with totals, and a decaying score of each
client and of the names it asks for. The ring shows the end of the history of
queries whatever the scores are, and the number of clients is bounded.
-/

namespace SplitDNS.Qlog

open Go Go.Netip Float64 Float64Scale

/-- How a query was handled. The type is a string: `other` is any text but those of the
constants. -/
inductive Decision
  | localAnswer | cacheHit | stale | forward | stub | refused | servfail | dropped
  | other (text : Str)
  deriving DecidableEq

structure Entry where
  seq : UInt64 := 0
  time : Time
  client : Addr
  transport : Str
  name : Str
  qtype : Str
  decision : Decision
  rcode : Str
  latency : Duration
  deriving DecidableEq

def Entry.zero : Entry := ⟨0, zeroTime, .invalid, [], [], [], .other [], [], 0⟩

structure ClientAgg (F : Type*) where
  client : Addr
  score : F
  names : Map Str F
  transports : Map Str UInt64
  lastSeen : Time
  decayAt : Time

def perClientNames : ℕ := 32

/-- `make([]Entry, size)` and what is kept with it. The index of the next slot is in range. -/
structure Log (F : Type*) where
  maxClients : ℤ
  lambda : F
  ring : List Entry
  next : ℕ
  count : ℕ
  clients : Map Addr (ClientAgg F)
  total : UInt64
  byDec : Map Decision UInt64
  byXport : Map Str UInt64
  next_lt : next < ring.length

section Model

variable {F : Type*} [Float64 F] [Float64Scale F]

/-- The scores below which a name and a client are forgotten. -/
def nameFloor : F := div (ofInt 5) (ofInt 100)

def clientFloor : F := div (ofInt 5) (ofInt 100)

/-- A log with the given fields and nothing recorded. -/
def Log.empty (size : ℕ) (hsize : 0 < size) (maxClients : ℤ) (lambda : F) : Log F where
  maxClients := maxClients
  lambda := lambda
  ring := List.replicate size .zero
  next := 0
  count := 0
  clients := ∅
  total := 0
  byDec := ∅
  byXport := ∅
  next_lt := List.length_replicate.symm ▸ hsize

def Log.new (size maxClients : ℤ) (lambda : F) : Log F :=
  .empty (if size ≤ 0 then 512 else size).toNat (by split_ifs <;> omega)
    (if maxClients ≤ 0 then 4096 else maxClients) lambda

variable (exp : F → F)

/-- The scores of a client aged to a time, without the names that went cold. -/
def decayTo (lambda : F) (ca : ClientAgg F) (t : Time) : ClientAgg F :=
  if eq lambda (ofInt 0) || ca.decayAt = zeroTime then { ca with decayAt := t }
  else
    let dt : F := seconds (t - ca.decayAt)
    if le dt (ofInt 0) then ca
    else
      let f := exp (mul (neg lambda) dt)
      { ca with
        decayAt := t
        score := mul ca.score f
        names := (ca.names.mapValues fun _ s => mul s f).deleteIf fun _ s => lt s nameFloor }

def ClientAgg.add (lambda : F) (ca : ClientAgg F) (e : Entry) : ClientAgg F :=
  let ca := decayTo exp lambda ca e.time
  { ca with
    score := Float64.add ca.score (ofInt 1)
    lastSeen := e.time
    transports := if e.transport ≠ [] then ca.transports.increment e.transport else ca.transports
    names :=
      if e.name ≠ [] ∧ (e.name ∈ ca.names ∨ ca.names.entries.length < perClientNames) then
        ca.names.insert e.name (Float64.add ((ca.names.lookup e.name).getD (ofInt 0)) (ofInt 1))
      else ca.names }

def ClientAgg.fresh (e : Entry) : ClientAgg F := ⟨e.client, ofInt 0, ∅, ∅, zeroTime, e.time⟩

/-- `Record` up to the totals. -/
def Log.append (l : Log F) (e : Entry) : Log F :=
  { l with
    total := l.total + 1
    ring := l.ring.set l.next { e with seq := l.total + 1 }
    next := (l.next + 1) % l.ring.length
    count := if l.count < l.ring.length then l.count + 1 else l.count
    byDec := l.byDec.increment e.decision
    byXport := if e.transport ≠ [] then l.byXport.increment e.transport else l.byXport
    next_lt := by
      rw [List.length_set]
      exact Nat.mod_lt _ (Nat.zero_lt_of_lt l.next_lt) }

def Log.record (l : Log F) (e : Entry) : Log F :=
  let l := l.append e
  if e.client.isValid then
    match l.clients.lookup e.client with
    | some ca => { l with clients := l.clients.insert e.client (ca.add exp l.lambda e) }
    | none =>
      if l.maxClients ≤ l.clients.entries.length then l
      else
        { l with clients := l.clients.insert e.client ((ClientAgg.fresh e).add exp l.lambda e) }
  else l

/-- The loop of `TopClients` over the clients, which forgets those that went cold. -/
def Log.forgetCold (l : Log F) (now : Time) : Log F :=
  { l with
    clients := (l.clients.mapValues fun _ ca => decayTo exp l.lambda ca now).deleteIf fun _ ca =>
      !eq l.lambda (ofInt 0) && lt ca.score clientFloor }

/-- The loop of `Recent`. A read out of range gives nothing. -/
def recentLoop (ring : List Entry) : ℕ → ℤ → List Entry → Option (List Entry)
  | 0, _, out => some out
  | n + 1, idx, out =>
    let idx := if idx < 0 then idx + ring.length else idx
    match if idx < 0 then none else ring[idx.toNat]? with
    | none => none
    | some e => recentLoop ring n (idx - 1) (out ++ [e])

def Log.recent (l : Log F) (n : ℤ) : Option (List Entry) :=
  let n := if n ≤ 0 ∨ n > l.count then l.count else n.toNat
  recentLoop l.ring n (l.next - 1) []

inductive Op
  | record (e : Entry)
  | topClients (now : Time)

def Log.step (l : Log F) : Op → Log F
  | .record e => l.record exp e
  | .topClients now => l.forgetCold exp now

end Model

def recorded : List Op → List Entry
  | [] => []
  | .record e :: ops => e :: recorded ops
  | .topClients _ :: ops => recorded ops

/-- Entries with the numbers they are given, from one on. -/
def stamped (es : List Entry) : List Entry :=
  es.mapIdx fun i e => { e with seq := UInt64.ofNat (i + 1) }

/-- The number of entries that `Recent` gives, of those that a ring retains. -/
def shown (size : ℕ) (es : List Entry) (n : ℤ) : ℕ :=
  if n ≤ 0 then min es.length size else min n.toNat (min es.length size)

/-! ## Reading the ring backwards -/

theorem recentLoop_eq {ring : List Entry} {k n : ℕ} (hk : k < ring.length) (hn : n ≤ ring.length)
    (out : List Entry) :
    recentLoop ring n ((k : ℤ) - 1) out = some (out ++ (ring.rotate k).reverse.take n) := by
  induction n generalizing k out with
  | zero => simp [recentLoop]
  | succ n ih =>
    obtain ⟨i, hi, hidx, hrotate⟩ : ∃ i : ℕ, i < ring.length ∧
        (if (k : ℤ) - 1 < 0 then (k : ℤ) - 1 + ring.length else (k : ℤ) - 1) = i ∧
        ring.rotate k = ring.rotate (i + 1) := by
      rcases k with _ | k
      · refine ⟨ring.length - 1, by omega, by rw [if_pos] <;> omega, ?_⟩
        rw [Nat.sub_add_cancel hk, List.rotate_length, List.rotate_zero]
      · exact ⟨k, by omega, by rw [if_neg] <;> omega, rfl⟩
    have hread :
        (if (i : ℤ) < 0 then none else ring[(i : ℤ).toNat]?) = some (ring.get ⟨i, hi⟩) := by
      rw [if_neg (by omega), Int.toNat_natCast, List.getElem?_eq_getElem hi, List.get_eq_getElem]
    simp only [recentLoop, hidx, hread]
    rw [ih hi (Nat.le_of_succ_le hn), hrotate, Wheel.rotate_succ hi, List.reverse_append]
    obtain ⟨x, rest, hx⟩ : ∃ x rest, ring.rotate i = x :: rest := by
      apply List.exists_cons_of_ne_nil
      rw [ne_eq, List.rotate_eq_nil_iff, ← List.length_eq_zero_iff]
      omega
    have hlen : n ≤ rest.reverse.length := by
      have := congrArg List.length hx
      rw [List.length_rotate, List.length_cons] at this
      rw [List.length_reverse]
      omega
    rw [hx, List.tail_cons, List.reverse_cons, List.take_append_of_le_length hlen]
    simp

/-! ## The history behind a log -/

section Run

variable {F : Type*}

structure Holds (size : ℕ) (maxClients : ℤ) (es : List Entry) (l : Log F) : Prop where
  maxClients_eq : l.maxClients = maxClients
  length_ring : l.ring.length = size
  next_eq : l.next = es.length % size
  count_eq : l.count = min es.length size
  total_eq : l.total = UInt64.ofNat es.length
  rotate_ring : l.ring.rotate l.next = (List.replicate size Entry.zero ++ stamped es).drop es.length
  sum_byDec : l.byDec.sumValues = l.total
  length_clients : l.clients.entries.length ≤ maxClients.toNat

theorem stamped_concat (es : List Entry) (e : Entry) :
    stamped (es ++ [e]) = stamped es ++ [{ e with seq := UInt64.ofNat (es.length + 1) }] :=
  List.mapIdx_concat

@[simp] theorem length_stamped (es : List Entry) : (stamped es).length = es.length :=
  List.length_mapIdx

theorem holds_empty {size : ℕ} (hsize : 0 < size) (maxClients : ℤ) (lambda : F) :
    Holds size maxClients [] (Log.empty size hsize maxClients lambda) where
  maxClients_eq := rfl
  length_ring := List.length_replicate
  next_eq := (Nat.zero_mod size).symm
  count_eq := (Nat.zero_min size).symm
  total_eq := rfl
  rotate_ring := by simp [Log.empty, stamped]
  sum_byDec := rfl
  length_clients := Nat.zero_le _

variable {size : ℕ} {maxClients : ℤ} {es : List Entry} {l : Log F}

theorem Holds.append (h : Holds size maxClients es l) (e : Entry) :
    Holds size maxClients (es ++ [e]) (l.append e) where
  maxClients_eq := h.maxClients_eq
  length_ring := List.length_set.trans h.length_ring
  next_eq := by
    change (l.next + 1) % l.ring.length = _
    rw [h.length_ring, h.next_eq, List.length_append, Nat.mod_add_mod]
    rfl
  count_eq := by
    change (if l.count < l.ring.length then l.count + 1 else l.count) = _
    rw [h.length_ring, h.count_eq, List.length_append, List.length_singleton]
    split_ifs <;> omega
  total_eq := by
    change l.total + 1 = _
    rw [h.total_eq, List.length_append, UInt64.ofNat_add]
    rfl
  rotate_ring := by
    change (l.ring.set l.next { e with seq := l.total + 1 }).rotate
      ((l.next + 1) % l.ring.length) = _
    have hmod : ∀ x, (l.ring.set l.next x).rotate ((l.next + 1) % l.ring.length) =
        (l.ring.set l.next x).rotate (l.next + 1) := by
      intro x
      rw [← List.rotate_mod (l.ring.set l.next x) (l.next + 1), List.length_set]
    -- The oldest entry leaves the window and the new one enters it.
    have hle : (es ++ [e]).length ≤ (List.replicate size Entry.zero ++ stamped es).length := by
      have := h.length_ring ▸ l.next_lt
      rw [List.length_append, List.length_append, List.length_replicate, length_stamped,
        List.length_singleton]
      omega
    rw [hmod, Wheel.rotate_succ_set l.next_lt, h.rotate_ring, List.tail_drop, stamped_concat,
      h.total_eq, ← List.append_assoc, List.drop_append_of_le_length hle, UInt64.ofNat_add]
    rw [List.length_append]
    rfl
  sum_byDec := by
    change (l.byDec.increment e.decision).sumValues = l.total + 1
    rw [Map.sumValues_increment, h.sum_byDec]
  length_clients := h.length_clients

theorem Holds.clients (h : Holds size maxClients es l) {clients : Map Addr (ClientAgg F)}
    (hlen : clients.entries.length ≤ maxClients.toNat) :
    Holds size maxClients es { l with clients := clients } :=
  { h with length_clients := hlen }

theorem shown_le (size : ℕ) (es : List Entry) (n : ℤ) : shown size es n ≤ min es.length size := by
  unfold shown
  split_ifs <;> omega

theorem Holds.recent_eq (h : Holds size maxClients es l) (n : ℤ) :
    l.recent n = some ((stamped es).reverse.take (shown size es n)) := by
  have hcount : (if n ≤ 0 ∨ n > l.count then l.count else n.toNat) = shown size es n := by
    rw [h.count_eq, shown]
    split_ifs <;> omega
  have hle := shown_le size es n
  have hwindow : ((List.replicate size Entry.zero ++ stamped es).drop es.length).reverse =
      ((stamped es).reverse ++ (List.replicate size Entry.zero).reverse).take size := by
    rw [List.reverse_drop, List.reverse_append]
    simp
  rw [Log.recent, hcount, recentLoop_eq l.next_lt (by rw [h.length_ring]; omega), h.rotate_ring,
    hwindow, List.take_take, Nat.min_eq_left (by omega),
    List.take_append_of_le_length (by simp; omega)]
  rfl

theorem seq_stamped (es : List Entry) {k : ℕ} (hk : k < es.length) :
    ((stamped es).reverse[k]?).map Entry.seq = some (UInt64.ofNat es.length - UInt64.ofNat k) := by
  rw [List.getElem?_reverse (by simpa using hk), length_stamped, stamped, List.getElem?_mapIdx,
    List.getElem?_eq_getElem (by omega), ← UInt64.ofNat_sub hk.le]
  simp only [Option.map_some]
  congr 2
  omega

variable [Float64 F] [Float64Scale F] (exp : F → F)

theorem Holds.record (h : Holds size maxClients es l) (e : Entry) :
    Holds size maxClients (es ++ [e]) (l.record exp e) := by
  have happ := h.append e
  rw [Log.record]
  cases e.client.isValid with
  | false => exact happ
  | true =>
    rw [if_pos rfl]
    rcases hca : (l.append e).clients.lookup e.client with _ | ca
    · by_cases hfull : (l.append e).maxClients ≤ (l.append e).clients.entries.length
      · simp only [if_pos hfull]
        exact happ
      · simp only [if_neg hfull]
        refine happ.clients ((Map.length_insert_le _ _ _).trans ?_)
        rw [happ.maxClients_eq] at hfull
        omega
    · refine happ.clients ?_
      rw [Map.length_insert_of_mem (Map.mem_of_lookup hca)]
      exact happ.length_clients

theorem Holds.forgetCold (h : Holds size maxClients es l) (now : Time) :
    Holds size maxClients es (l.forgetCold exp now) := by
  refine h.clients ((Map.length_foldl_erase_le _ _ _).trans ?_)
  exact (List.length_map _).trans_le h.length_clients

theorem recorded_concat (ops : List Op) (op : Op) :
    recorded (ops ++ [op]) = recorded ops ++ recorded [op] := by
  induction ops with
  | nil => rfl
  | cons o ops ih =>
    cases o with
    | record e => exact congrArg (e :: ·) ih
    | topClients now => exact ih

theorem holds_run (hsize : 0 < size) (maxClients : ℤ) (lambda : F) (ops : List Op) :
    Holds size maxClients (recorded ops)
      (ops.foldl (Log.step exp) (.empty size hsize maxClients lambda)) := by
  refine @Runs.inv_foldl (Log F) Op (Log.step exp) _
    (fun ops l => Holds size maxClients (recorded ops) l) (holds_empty hsize maxClients lambda)
    (fun ops l op h => ?_) ops
  rw [recorded_concat]
  cases op with
  | record e => exact h.record exp e
  | topClients now =>
    rw [recorded, recorded, List.append_nil]
    exact h.forgetCold exp now

theorem recorded_map_record (es : List Entry) : recorded (es.map .record) = es := by
  induction es with
  | nil => rfl
  | cons e es ih => exact congrArg (e :: ·) ih

/-- After every sequence of queries `Recent` gives the last of them, newest first and numbered
down from the total. The totals of the decisions add up to it, and the tracked clients are no
more than allowed. -/
theorem recent_exact (size : ℕ) (hsize : 0 < size) (maxClients : ℤ) (lambda : F) (es : List Entry)
    (n : ℤ) :
    let l := es.foldl (Log.record exp) (.empty size hsize maxClients lambda)
    ∃ out, l.recent n = some out ∧
      out = (stamped es).reverse.take (shown size es n) ∧ out.length = shown size es n ∧
      (∀ k < out.length, (out[k]?).map Entry.seq = some (l.total - UInt64.ofNat k)) ∧
      l.total = UInt64.ofNat es.length ∧ l.byDec.sumValues = l.total ∧
      l.clients.entries.length ≤ maxClients.toNat := by
  have h := holds_run exp hsize maxClients lambda (es.map .record)
  rw [recorded_map_record, List.foldl_map] at h
  have hle := shown_le size es n
  have hlen : ((stamped es).reverse.take (shown size es n)).length = shown size es n := by
    rw [List.length_take, List.length_reverse, length_stamped]
    omega
  refine ⟨_, h.recent_eq n, rfl, hlen, fun k hk => ?_, h.total_eq, h.sum_byDec, h.length_clients⟩
  rw [List.getElem?_take_of_lt (by omega), seq_stamped es (by omega), ← h.total_eq]
  rfl

theorem recent_exact_wrapped :
    0 < 2 ∧
      (([['a'], ['b'], ['c']].map fun name =>
        { Entry.zero with client := .v4 1, name := name }).foldl
        (Log.record id) (.empty 2 (by decide) 1 (0 : ℚ))).recent 5 =
      some ([(3, ['c']), (2, ['b'])].map fun p =>
        { Entry.zero with seq := p.1, client := .v4 1, name := p.2 }) := by
  refine ⟨by decide, ?_⟩
  obtain ⟨out, hrecent, hout, -⟩ := recent_exact id 2 (by decide) 1 (0 : ℚ)
    ([['a'], ['b'], ['c']].map fun name => { Entry.zero with client := .v4 1, name := name }) 5
  rw [hrecent, hout]
  decide

end Run

end SplitDNS.Qlog
