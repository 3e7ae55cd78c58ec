import Mathlib.Algebra.Order.BigOperators.Group.List
import SplitDNS.Go.NetipText
import SplitDNS.Go.Sort
import SplitDNS.Model.Snapshot

/-! # Update plans

The plan that brings a host's records to a desired set of addresses, and its
execution against the record store of the provider. Records of the wrong
addresses are edited in place within their family; what is left over on either
side is created or deleted. The provider gives every new record a fresh
identifier.
-/

namespace SplitDNS.DDNS

open Go Go.Netip Go.Strings Dns Model

structure EditOp where
  record : Model.RR
  addr : Addr

structure CreateOp where
  zoneID : Str
  name : Str
  addr : Addr

structure Plan where
  edits : List EditOp := []
  creates : List CreateOp := []
  deletes : List Model.RR := []

/-- The steps of one plan followed by those of another, kind by kind. -/
def Plan.append (p q : Plan) : Plan where
  edits := p.edits ++ q.edits
  creates := p.creates ++ q.creates
  deletes := p.deletes ++ q.deletes

def Plan.empty (p : Plan) : Bool := p.edits = [] && p.creates = [] && p.deletes = []

def typeOf (a : Addr) : RRType := if a.is4 then typeA else typeAAAA

/-- The canonical text of an address literal; other content as it is. -/
def normAddr (s : Str) : Str :=
  match parseAddr (trimSpace s) with
  | some a => a.unmap.string
  | none => s

/-- The desired addresses that no record has yet, each once. -/
def addedAddrs (curSet : List Str) : List Str → List Addr → List Addr
  | _, [] => []
  | desiredSet, a :: desired =>
    if a.string ∈ desiredSet then addedAddrs curSet desiredSet desired
    else if a.string ∈ curSet then addedAddrs curSet (a.string :: desiredSet) desired
    else a :: addedAddrs curSet (a.string :: desiredSet) desired

/-- The plan of one address family: edit in place, then create or delete the surplus. -/
def familyPlan (zoneID name : Str) (added : List Addr) (deleted : List Model.RR) : Plan :=
  let n := min added.length deleted.length
  { edits := List.zipWith EditOp.mk deleted added
    creates := (added.drop n).map (CreateOp.mk zoneID name)
    deletes := deleted.drop n }

/-- The plan for a non-empty list of records; the source panics on an empty one. -/
def buildPlan (sortAdded : SliceSort Addr.string) (sortDeleted : SliceSort Model.RR.content)
    (records : List Model.RR) (desired : List Addr) : Option Plan :=
  match records with
  | [] => none
  | first :: _ =>
    let curSet := records.map fun r => normAddr r.content
    let added := addedAddrs curSet [] desired
    let deleted := records.filter fun r => normAddr r.content ∉ desired.map Addr.string
    let family (is6 : Bool) := familyPlan first.zoneID first.name
      (sortAdded.sort (added.filter fun a => a.is6 = is6))
      (sortDeleted.sort (deleted.filter fun r => decide (r.type = typeAAAA) = is6))
    some ((family false).append (family true))

/-- The non-proxied address records on the allowlist; an empty allowlist allows all. -/
def filterEligibleRecords (records : List Model.RR) (allow : Map Str Bool) : List Model.RR :=
  records.filter fun r =>
    !r.proxied && (r.type = typeA || r.type = typeAAAA) &&
      (allow.entries = [] || (allow.lookup (trimSuffix (toLower r.name) ['.'])).getD false)

inductive EditorCall where
  | update (zoneID recordID name : Str) (type : RRType) (content : Str)
  | create (zoneID name : Str) (type : RRType) (content : Str)
  | delete (zoneID recordID : Str)
  deriving DecidableEq

/-- The calls of a plan in the order in which they are made. -/
def Plan.calls (p : Plan) : List EditorCall :=
  p.edits.map (fun e => .update e.record.zoneID e.record.recordID e.record.name (typeOf e.addr)
    e.addr.string) ++
  p.creates.map (fun c => .create c.zoneID c.name (typeOf c.addr) c.addr.string) ++
  p.deletes.map fun d => .delete d.zoneID d.recordID

/-- The provider's choice of an identifier that no stored record has. -/
structure IdSource where
  next : List Model.RR → Str
  fresh : ∀ store, ∀ r ∈ store, r.recordID ≠ next store

instance : Inhabited IdSource where
  default :=
    { next := fun store => List.replicate ((store.map fun r => r.recordID.length).sum + 1) 'n'
      fresh := by
        intro store r hr h
        have hle : r.recordID.length ≤ (store.map fun r => r.recordID.length).sum :=
          List.single_le_sum (fun _ _ => Nat.zero_le _) _ (List.mem_map.mpr ⟨r, hr, rfl⟩)
        have hl := congrArg List.length h
        rw [List.length_replicate] at hl
        omega }

def recordKey (r : Model.RR) : Str × Str := (r.zoneID, r.recordID)

def EditorCall.exec (ids : IdSource) (store : List Model.RR) : EditorCall → List Model.RR
  | update zoneID recordID name type content =>
    store.map fun r => if recordKey r = (zoneID, recordID)
      then { r with name := name, type := type, content := content } else r
  | create zoneID name type content =>
    store ++ [{ name, type, content, zoneID, recordID := ids.next store, cls := classINET }]
  | delete zoneID recordID => store.filter fun r => recordKey r ≠ (zoneID, recordID)

def EditorCall.failure (err : Str) : EditorCall → Str
  | update zoneID recordID _ _ _ =>
    "update ".toList ++ zoneID ++ '/' :: recordID ++ ": ".toList ++ err
  | create _ name _ content => "create ".toList ++ name ++ ' ' :: content ++ ": ".toList ++ err
  | delete zoneID recordID => "delete ".toList ++ zoneID ++ '/' :: recordID ++ ": ".toList ++ err

/-- The calls from a position on, up to the first one that fails. -/
def execCalls (ids : IdSource) (fail : ℕ → Option Str) :
    ℕ → List EditorCall → List Model.RR → List Model.RR × Option Str
  | _, [], store => (store, none)
  | i, call :: calls, store =>
    match fail i with
    | some err => (store, some (call.failure err))
    | none => execCalls ids fail (i + 1) calls (call.exec ids store)

/-- The calls made from a position on: a call that fails is the last one. -/
def madeCalls (fail : ℕ → Option Str) : ℕ → List EditorCall → List EditorCall
  | _, [] => []
  | i, call :: calls =>
    match fail i with
    | some _ => [call]
    | none => call :: madeCalls fail (i + 1) calls

/-- What the writer reports for the calls made from a position on. -/
def failedCall (fail : ℕ → Option Str) : ℕ → List EditorCall → Option Str
  | _, [] => none
  | i, call :: calls =>
    match fail i with
    | some err => some (call.failure err)
    | none => failedCall fail (i + 1) calls

/-- `Writer.apply`, with the error of each call by its position. -/
def apply (ids : IdSource) (fail : ℕ → Option Str) (p : Plan) (store : List Model.RR) :
    List Model.RR × Option Str := execCalls ids fail 0 p.calls store

end SplitDNS.DDNS
