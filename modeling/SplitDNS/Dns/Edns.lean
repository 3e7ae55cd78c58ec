import SplitDNS.Dns.Message

/-! # Extension records

The OPT pseudo-record of a message and truncation. The lifetime and class of an
OPT record hold its flags and the size of a datagram. Of truncation it is only
assumed that it cuts the sections at their ends.
-/

namespace Dns

open Go

/-- The flag of an OPT record that asks for signatures. -/
def doFlag : UInt32 := 0x8000

/-- `Msg.IsEdns0`: the last OPT record of the additional section. -/
def isEdns0 (m : Msg) : Option Record :=
  (m.extra.reverse.filterMap id).find? fun r => r.hdr.rrtype = typeOPT

/-- `OPT.Do`. -/
def Record.doBit (r : Record) : Bool := r.hdr.ttl &&& doFlag = doFlag

def Record.udpSize (r : Record) : ℕ := r.hdr.cls.toNat

def setEdns0 (m : Msg) (udpSize : UInt16) (doBit : Bool) : Msg :=
  { m with
    extra := m.extra ++ [some ⟨⟨['.'], typeOPT, udpSize, if doBit then doFlag else 0⟩, .opt⟩] }

def stripOPT (m : Msg) : Msg :=
  { m with extra := m.extra.filter fun rr => !rr.any fun r => r.data = .opt }

/-- The message with the lifetimes of its records mapped. -/
def mapTTL (f : UInt32 → UInt32) (m : Msg) : Msg :=
  let adjust (rrs : List RR) := rrs.map fun rr => rr.map fun r =>
    { r with hdr := { r.hdr with ttl := f r.hdr.ttl } }
  { m with answer := adjust m.answer, ns := adjust m.ns, extra := adjust m.extra }

theorem stripOPT_mapTTL (f : UInt32 → UInt32) (m : Msg) :
    stripOPT (mapTTL f m) = mapTTL f (stripOPT m) := by
  simp [stripOPT, mapTTL, List.filter_map, Function.comp_def, Option.any_map]

theorem mapTTL_mapTTL (f g : UInt32 → UInt32) (m : Msg) :
    mapTTL f (mapTTL g m) = mapTTL (f ∘ g) m := by
  simp [mapTTL, Function.comp_def]

structure Truncate where
  run : ℕ → Msg → Msg
  id_eq : ∀ size m, (run size m).id = m.id
  question_eq : ∀ size m, (run size m).question = m.question
  cuts_answer : ∀ size m, (run size m).answer <+: m.answer

instance : Inhabited Truncate where
  default :=
    { run := fun _ m => m
      id_eq := fun _ _ => rfl
      question_eq := fun _ _ => rfl
      cuts_answer := fun _ _ => List.prefix_refl _ }

end Dns
