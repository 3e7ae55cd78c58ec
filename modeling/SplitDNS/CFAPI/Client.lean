import SplitDNS.Mirror.Zone
import SplitDNS.Paging.Basic

/-! # The provider's API

The client of the provider's API. A listing comes page by page and is complete or
fails; nothing keeps the zone from changing between two pages. A listing of one
host asks for a single page per zone.
-/

namespace SplitDNS.CFAPI

open Go Go.Strings Dns Model

structure CfError where
  code : ℤ
  message : Str
  deriving DecidableEq

/-- The wrapper of every response, with the result as far as it decodes. -/
structure Envelope (α : Type*) where
  success : Bool
  errors : List CfError := []
  result : Except Str α
  totalPages : Option ℤ := none

/-- What comes back for a request: nothing, something that is no envelope, or an envelope. -/
inductive Reply (α : Type*) where
  | failed (err : Str)
  | garbled (status : ℕ) (err : Str)
  | envelope (status : ℕ) (env : Envelope α)

structure Call where
  method : Str
  path : Str
  query : List (Str × Str) := []
  deriving DecidableEq

/-- `fmt.Sprintf` of a number with `%d`. -/
def number (n : ℤ) : Str := if n < 0 then '-' :: decimal n.natAbs else decimal n.natAbs

def formatErrors (errs : List CfError) (status : ℕ) : Str :=
  if errs = [] then "status ".toList ++ decimal status
  else "; ".toList.intercalate (errs.map fun e => number e.code ++ ' ' :: e.message)

/-- `do`: the envelope of a call that succeeded. -/
def doCall {α : Type*} (server : Call → Reply α) (call : Call) : Except Str (Envelope α) :=
  let pre := "cfapi: ".toList ++ call.method ++ ' ' :: call.path ++ ": ".toList
  match server call with
  | .failed err => .error err
  | .garbled status err =>
    .error (pre ++ "bad response (status ".toList ++ decimal status ++ "): ".toList ++ err)
  | .envelope status env =>
    if env.success then .ok env else .error (pre ++ formatErrors env.errors status)

def decode {α : Type*} (what : Str) (env : Envelope α) : Except Str α :=
  match env.result with
  | .ok result => .ok result
  | .error err => .error ("cfapi: decode ".toList ++ what ++ ": ".toList ++ err)

def getPage {α : Type*} (server : Call → Reply (List α)) (what : Str) (call : Call) :
    Except Str (Paging.Page α) :=
  match doCall server call with
  | .error err => .error err
  | .ok env =>
    match decode what env with
    | .error err => .error err
    | .ok items => .ok ⟨items, env.totalPages⟩

def recordsPath (zoneID : Str) : Str := "/zones/".toList ++ zoneID ++ "/dns_records".toList

def recordsCall (zoneID : Str) (page : ℕ) : Call where
  method := "GET".toList
  path := recordsPath zoneID
  query := [("per_page".toList, "100".toList), ("page".toList, decimal page)]

def allRecords (server : Call → Reply (List Record)) (zoneID : Str) (fuel : ℕ) :
    Option (Except Str (List Record)) :=
  Paging.drain (fun page => getPage server "records".toList (recordsCall zoneID page)) fuel 1 []

/-! ## Listings that are complete -/

/-- The server puts `per` items on a page and answers each of the first `N` requests from the list
as it is then. -/
def Serves {α : Type*} (server : Call → Reply (List α)) (call : ℕ → Call) (per N : ℕ)
    (list : ℕ → List α) : Prop :=
  ∀ n, 1 ≤ n → n ≤ N → ∃ status, server (call n) = .envelope status
    { success := true
      result := .ok (Paging.pageOf per (list n) n).items
      totalPages := (Paging.pageOf per (list n) n).totalPages }

theorem getPage_of_serves {α : Type*} {server : Call → Reply (List α)} {call : ℕ → Call}
    {per N n : ℕ} {list : ℕ → List α} (h : Serves server call per N list) (hn : 1 ≤ n)
    (hN : n ≤ N) (what : Str) :
    getPage server what (call n) = .ok (Paging.pageOf per (list n) n) := by
  obtain ⟨status, hstatus⟩ := h n hn hN
  simp [getPage, doCall, decode, hstatus]

/-- A walk over a list of at most `N` pages returns what it has seen at the first page that is the
last one then. -/
theorem exists_drain_getPage {α : Type*} {server : Call → Reply (List α)} {call : ℕ → Call}
    {per N : ℕ} {list : ℕ → List α} (h : Serves server call per N list) (hper : 0 < per)
    (hN : 1 ≤ N) (hlength : ∀ n, (list n).length ≤ N * per) (what : Str) :
    ∃ m, 1 ≤ m ∧ m ≤ N ∧ (list m).length ≤ m * per ∧
      Paging.drain (fun n => getPage server what (call n)) N 1 [] =
        some (.ok (Paging.seen per list m)) := by
  obtain ⟨m, hm, hmN, hend, hdrain⟩ := @Paging.exists_drain _ Str _ hper list N hN hlength
  refine ⟨m, hm, hmN, hend, ?_⟩
  rw [← hdrain]
  exact Paging.drain_congr N 1 [] fun k hk hlt => getPage_of_serves h hk (by omega) what

/-- Whatever the size of its pages, a zone that does not change is listed as it is, in order. -/
theorem allRecords_eq {server : Call → Reply (List Record)} {zoneID : Str} {per N : ℕ}
    {recs : List Record} (h : Serves server (recordsCall zoneID) per N fun _ => recs)
    (hper : 0 < per) (hN : 1 ≤ N) (hlength : recs.length ≤ N * per) :
    allRecords server zoneID N = some (.ok recs) := by
  obtain ⟨m, -, -, hend, hdrain⟩ :=
    exists_drain_getPage h hper hN (fun _ => hlength) "records".toList
  rw [allRecords, hdrain, Paging.seen_const, List.take_of_length_le hend]

/-- While a zone is listed, records may go and new ones may come. The listing returns, no record is
in it twice, each was in the zone at one of the requests, and of those that were in the zone all
the time no more are missing than were removed meanwhile. -/
theorem allRecords_during_changes {server : Call → Reply (List Record)} {zoneID : Str} {per N : ℕ}
    {zone : ℕ → List Record} (h : Serves server (recordsCall zoneID) per N zone) (hper : 0 < per)
    (hN : 1 ≤ N) (hlength : ∀ n, (zone n).length ≤ N * per)
    (hchanges : Paging.Evolves fun n => (zone n).map Record.id) :
    ∃ m out, allRecords server zoneID N = some (.ok out) ∧ (out.map Record.id).Nodup ∧
      (∀ r ∈ out, ∃ n, 1 ≤ n ∧ n ≤ m ∧ r ∈ zone n) ∧
      (((zone m).map Record.id).filter fun id =>
        id ∈ (zone 1).map Record.id ∧ id ∉ out.map Record.id).length ≤
        Paging.removed (fun n => (zone n).map Record.id) m := by
  obtain ⟨m, hm, -, hend, hdrain⟩ := exists_drain_getPage h hper hN hlength "records".toList
  have hids := Paging.map_seen Record.id per zone m
  refine ⟨m, _, hdrain, ?_, fun r hr => Paging.exists_mem_of_mem_seen hr, ?_⟩
  · rw [hids]
    exact (Paging.walked hchanges hm).nodup
  · rw [hids]
    convert Paging.missed_le_removed hchanges hm (by simpa using hend)

/-- A zone of three records that loses the first one after the first request. -/
def shrinkingZone (n : ℕ) : List Record :=
  (if n ≤ 1 then ["a", "b", "c"] else ["b", "c"]).map fun id =>
    { id := id.toList, type := [], name := [], content := [] }

/-- A server of three requests, with one record on a page. -/
def answering (zone : ℕ → List Record) (call : Call) : Reply (List Record) :=
  let n := if call = recordsCall [] 1 then 1 else if call = recordsCall [] 2 then 2 else 3
  .envelope 200
    { success := true
      result := .ok (Paging.pageOf 1 (zone n) n).items
      totalPages := (Paging.pageOf 1 (zone n) n).totalPages }

theorem serves_answering (zone : ℕ → List Record) :
    Serves (answering zone) (recordsCall []) 1 3 zone := by
  intro n hn hn3
  have hcall : (recordsCall [] 2 ≠ recordsCall [] 1) ∧ (recordsCall [] 3 ≠ recordsCall [] 1) ∧
      (recordsCall [] 3 ≠ recordsCall [] 2) := by decide
  obtain rfl | rfl | rfl : n = 1 ∨ n = 2 ∨ n = 3 := by omega
  · exact ⟨200, by simp [answering]⟩
  · exact ⟨200, by simp [answering, hcall.1]⟩
  · exact ⟨200, by simp [answering, hcall.2.1, hcall.2.2]⟩

theorem allRecords_three_pages :
    allRecords (answering fun _ => shrinkingZone 1) [] 3 = some (.ok (shrinkingZone 1)) :=
  allRecords_eq (serves_answering _) (by decide) (by decide) (by decide)

theorem allRecords_shrinkingZone :
    ∃ m out, allRecords (answering shrinkingZone) [] 3 = some (.ok out) ∧
      (((shrinkingZone m).map Record.id).filter fun id =>
        id ∈ (shrinkingZone 1).map Record.id ∧ id ∉ out.map Record.id).length ≤
        Paging.removed (fun n => (shrinkingZone n).map Record.id) m := by
  have hlater (n : ℕ) : shrinkingZone (n + 2) = shrinkingZone 2 := rfl
  have hlength (n : ℕ) : (shrinkingZone n).length ≤ 3 * 1 := by
    unfold shrinkingZone
    split <;> decide
  have hchanges : Paging.Evolves fun n => (shrinkingZone n).map Record.id := by
    refine ⟨fun n => ?_, fun n => ⟨[], ?_, by simp⟩⟩
    · unfold shrinkingZone
      split <;> decide
    · match n with
      | 0 => decide
      | 1 => decide
      | n + 2 =>
        rw [hlater (n + 1), hlater n]
        decide
  obtain ⟨m, out, hout, -, -, hmissed⟩ :=
    allRecords_during_changes (serves_answering shrinkingZone) (by decide) (by decide) hlength
      hchanges
  exact ⟨m, out, hout, hmissed⟩

end SplitDNS.CFAPI
