import Mathlib.Data.Rat.Floor
import SplitDNS.Dns.Message

/-! # Records

The canonical record of the data plane and its rendering. A record is rendered
by writing its presentation line and reading the line back, so a record whose
line cannot be read is an error and never an empty answer.
-/

namespace SplitDNS.Model

open Go Go.Strings Dns

structure RR where
  name : Str := []
  type : RRType := 0
  ttl : UInt32 := 0
  cls : UInt16 := 0
  content : Str := []
  priority : UInt16 := 0
  weight : UInt16 := 0
  port : UInt16 := 0
  target : Str := []
  zoneID : Str := []
  recordID : Str := []
  proxied : Bool := false
  synthetic : Bool := false
  trusted : Bool := false
  deriving DecidableEq, Repr

def ensureDot (s : Str) : Str := if s = [] || hasSuffix s ['.'] then s else s ++ ['.']

def classOrINET (c : UInt16) : UInt16 := if c = 0 then classINET else c

/-- `fmt.Sprintf` of an unsigned number with `%d`. -/
def decimal (n : ℕ) : Str := formatUint n

/-- `RR.RDATA`: preference and priority are folded back in for MX and SRV. -/
def RR.rdata (r : RR) : Str :=
  if r.type = typeMX then
    join [decimal r.priority.toNat, ensureDot r.target] ' '
  else if r.type = typeSRV then
    join [decimal r.priority.toNat, decimal r.weight.toNat, decimal r.port.toNat,
      ensureDot r.target] ' '
  else r.content

def RR.line (r : RR) : Str :=
  join [ensureDot r.name, decimal r.ttl.toNat, classToString (classOrINET r.cls),
    typeToString r.type, r.rdata] ' '

section Rendering

variable (newRR : NewRR)

/-- `RR.ToMiekg`: a line without a record is an error too. -/
def RR.toMiekg (r : RR) : Except Str Record :=
  match newRR r.line with
  | .error e => .error ("model: cannot build RR from ".toList ++ r.line ++ ": ".toList ++ e)
  | .ok none => .error ("model: RR line ".toList ++ r.line ++ " produced no record".toList)
  | .ok (some rec) => .ok rec

/-- The record rendered with its owner replaced, if it renders. -/
def RR.Renders (r : RR) (name : Str) : Prop :=
  ∃ rec, RR.toMiekg newRR { r with name := name } = .ok rec

instance (r : RR) (name : Str) : Decidable (r.Renders newRR name) :=
  match h : RR.toMiekg newRR { r with name := name } with
  | .ok rec => isTrue ⟨rec, h⟩
  | .error _ => isFalse fun ⟨rec, hrec⟩ => by rw [h] at hrec; cases hrec

end Rendering

/-- `model.CoercePriority`. The value of a float that is not a number is `none`. -/
def coercePriority : Option ℚ → Option UInt16
  | none => none
  | some f =>
    if f < 0 || 65535 < f then none
    else if f ≠ f.floor then none
    else some (UInt16.ofNat f.floor.toNat)

/-- `model.ParseSRVContent`: weight, port and target. -/
def parseSRVContent (content : Str) : Option (UInt16 × UInt16 × Str) :=
  match fields content with
  | [w, p, t] => do
    let w ← parseUint w 16
    let p ← parseUint p 16
    return (UInt16.ofNat w, UInt16.ofNat p, ensureDot t)
  | _ => none

end SplitDNS.Model
