import SplitDNS.DDNS.Plan
import SplitDNS.Go.Float
import SplitDNS.Netmatch

/-! # The update writer

One reconciliation of a host: the announced addresses are filtered to public
ones, the host's records to the eligible ones, and the plan that is left is
executed if the rate guards admit it. Everything outside is an input of the
call: the record source, the clock, the failures of the editor. The outcome
lists the editor calls made and the line for the audit trail.
-/

namespace SplitDNS.DDNS

open Go Go.Netip Go.Strings Model Netmatch

structure Change where
  host : Str
  addrs : List Addr
  deriving DecidableEq

structure Config where
  enabled : Bool := false
  dryRun : Bool := false
  rate : Duration := 0
  eligible : Map Str Bool := ∅
  globalBurst : ℤ := 0
  globalRefill : Duration := 0

inductive Outcome where
  | disabled
  | notEligible
  | noPublic
  | unchanged
  | rateLimited
  | dryRun
  | applied
  | error
  deriving DecidableEq, Repr

def Outcome.text : Outcome → Str
  | disabled => "disabled".toList
  | notEligible => "not-eligible".toList
  | noPublic => "no-public-addrs".toList
  | unchanged => "unchanged".toList
  | rateLimited => "rate-limited".toList
  | dryRun => "dry-run".toList
  | applied => "applied".toList
  | error => "error".toList

section Buckets

variable {F : Type*} [Float64 F]

structure TokenBucket (F : Type*) where
  cap : F
  tokens : F
  refillPer : Duration
  last : Time

def mathMin (a b : F) : F := if Float64.lt a b then a else b

/-- The bucket after a request, and whether it was granted. -/
def TokenBucket.allow (b : TokenBucket F) (now : Time) : TokenBucket F × Bool :=
  if b.refillPer ≤ 0 then (b, true)
  else
    let tokens :=
      if b.last ≠ zeroTime then
        mathMin b.cap
          (Float64.add b.tokens (Float64.div (seconds (now - b.last)) (seconds b.refillPer)))
      else b.tokens
    if Float64.le (Float64.ofInt 1) tokens then
      ({ b with tokens := Float64.sub tokens (Float64.ofInt 1), last := now }, true)
    else ({ b with tokens, last := now }, false)

end Buckets

structure Writer (F : Type*) where
  cfg : Config
  lastByHost : Map Str Time := ∅
  global : Option (TokenBucket F) := none

/-- A line of the audit trail, without its time and chaining. -/
structure AuditLine where
  host : Str
  action : Str
  outcome : Outcome
  detail : Str
  deriving DecidableEq

/-- What one reconciliation returns: the writer, the outcome with its error, the editor calls made
and the audit line. -/
structure Reconciled (F : Type*) where
  writer : Writer F
  outcome : Outcome
  error : Option Str := none
  calls : List EditorCall := []
  audit : Option AuditLine := none

structure Request where
  change : Change
  source : Str → Except Str (List Model.RR)
  now : Time
  fail : ℕ → Option Str := fun _ => none
  sortAdded : SliceSort Addr.string := default
  sortDeleted : SliceSort Model.RR.content := default

/-- The host's key: lower case without surrounding space. -/
def Change.key (c : Change) : Str := toLower (trimSpace c.host)

def Change.desired (c : Change) : List Addr := (c.addrs.filter isDDNSEligible).map Addr.unmap

def short (id : Str) : Str := if 8 < id.length then id.take 8 else id

def Plan.describe (p : Plan) : Str :=
  trimSpace ((p.edits.flatMap fun e => "edit ".toList ++ short e.record.zoneID ++ ':' ::
      short e.record.recordID ++ ' ' :: e.record.content ++ "->".toList ++ e.addr.string ++
      "; ".toList) ++
    (p.creates.flatMap fun c => "create ".toList ++ short c.zoneID ++ ':' :: c.name ++
      " +".toList ++ c.addr.string ++ "; ".toList) ++
    p.deletes.flatMap fun d => "delete ".toList ++ short d.zoneID ++ ':' :: short d.recordID ++
      " -".toList ++ d.content ++ "; ".toList)

namespace Writer

variable {F : Type*} [Float64 F]

/-- `ddns.New`. A live writer without an allowlist is forced to a dry run. -/
def new (cfg : Config) (now : Time) : Writer F where
  cfg :=
    { cfg with dryRun := cfg.dryRun || (cfg.enabled && !cfg.dryRun && cfg.eligible.entries = []) }
  global :=
    if 0 < cfg.globalBurst && 0 < cfg.globalRefill then
      some
        { cap := Float64.ofInt cfg.globalBurst
          tokens := Float64.ofInt cfg.globalBurst
          refillPer := cfg.globalRefill
          last := now }
    else none

/-- The minimum interval since the last admitted plan of the host has not passed. -/
def tooSoon (w : Writer F) (host : Str) (now : Time) : Bool :=
  0 < w.cfg.rate && (w.lastByHost.lookup host).any fun last => now - last < w.cfg.rate

/-- The guarded execution of a plan that is not empty. -/
def execute (w : Writer F) (x : Request) (host : Str) (p : Plan) : Reconciled F :=
  let line outcome detail : Option AuditLine := some ⟨host, p.describe, outcome, detail⟩
  if w.tooSoon host x.now then
    { writer := w, outcome := .rateLimited, audit := line .rateLimited "per-host interval".toList }
  else
    let granted := w.global.map fun b => b.allow x.now
    let w := { w with global := granted.map Prod.fst }
    if granted.any fun g => !g.2 then
      { writer := w, outcome := .rateLimited, audit := line .rateLimited "global bucket".toList }
    else
      let w := { w with lastByHost := w.lastByHost.insert host x.now }
      if w.cfg.dryRun then { writer := w, outcome := .dryRun, audit := line .dryRun [] }
      else
        let calls := madeCalls x.fail 0 p.calls
        match failedCall x.fail 0 p.calls with
        | some err =>
          { writer := w, outcome := .error, error := some err, calls, audit := line .error err }
        | none => { writer := w, outcome := .applied, calls, audit := line .applied [] }

def reconcile (w : Writer F) (x : Request) : Reconciled F :=
  if !w.cfg.enabled then { writer := w, outcome := .disabled }
  else if x.change.desired = [] then { writer := w, outcome := .noPublic }
  else match x.source x.change.key with
    | .error err =>
      { writer := w, outcome := .error, error := some ("record source: ".toList ++ err) }
    | .ok records =>
      -- there is a plan unless the filter leaves no record
      match buildPlan x.sortAdded x.sortDeleted (filterEligibleRecords records w.cfg.eligible)
          x.change.desired with
      | none => { writer := w, outcome := .notEligible }
      | some p =>
        if p.empty then { writer := w, outcome := .unchanged } else w.execute x x.change.key p

end Writer

end SplitDNS.DDNS
