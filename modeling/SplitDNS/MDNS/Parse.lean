import SplitDNS.MDNS.Cache

/-! # What a packet announces

The addresses of single-label hosts in the answer and additional sections of a
response, grouped by host, and the services that its records link to hosts. A
packet is taken as the message it unpacks to, or nothing if it does not.
-/

namespace SplitDNS.MDNS

open Go Go.Netip Go.Strings Dns

/-- The bare host of an owner name, empty for anything but a single label. -/
def canonHost (name : Str) : Str :=
  let h := trimSuffix (trimSuffix (toLower name) ['.']) ".local".toList
  if h = [] || '.' ∈ h || hasPrefix h ['_'] then [] else h

/-- The address of an address record. The bytes of a record have no zone. -/
def recordAddr : RData → Option Addr
  | .a ip =>
    match ip.unmap with
    | .v4 b => some (.v4 b)
    | _ => none
  | .aaaa ip =>
    match ip with
    | .v6 b _ => some (.v6 b [])
    | .v4 b => some (.v4 b)
    | .invalid => none
  | _ => none

/-- The announcement with one more address, and the smaller lifetime. -/
def Announcement.add (a : Announcement) (addr : Addr) (ttl : UInt32) : Announcement :=
  if addr ∈ a.addrs then a
  else
    { a with
      addrs := a.addrs ++ [addr]
      ttl := if ttl < a.ttl || a.ttl = 0 then ttl else a.ttl }

/-- The closure `add` of `ParsePacket`, on the announcements in the order of their hosts. -/
def addTo (found : List Announcement) (host : Str) (addr : Addr) (ttl : UInt32) :
    List Announcement :=
  if host = [] || !addr.isValid then found
  else
    let addr := addr.unmap
    if addr.isLinkLocalUnicast then found
    else if found.any (·.host = host) then
      found.map fun a => if a.host = host then a.add addr ttl else a
    else found ++ [Announcement.add ⟨host, [], ttl⟩ addr ttl]

/-- The records of the answer and additional sections of a response. -/
def announced (packet : Option Msg) : List Record :=
  match packet with
  | some m => if m.response then (m.answer ++ m.extra).filterMap id else []
  | none => []

def parsePacket (packet : Option Msg) : List Announcement :=
  (announced packet).foldl (fun found r =>
    match recordAddr r.data with
    | some addr => addTo found (canonHost r.hdr.name) addr r.hdr.ttl
    | none => found) []

structure Service where
  host : Str
  type : Str
  port : UInt16
  ttl : UInt32
  desc : Str := []
  text : List Str := []
  deriving DecidableEq, Repr

section Services

/-- The service type in the last two labels of an instance name. -/
def serviceType (name : Str) : Str :=
  let n := trimSuffix (trimSuffix (toLower name) ['.']) ".local".toList
  match (split n '.').reverse with
  | proto :: app :: _ =>
    if hasPrefix app ['_'] && hasPrefix proto ['_'] then app ++ '.' :: proto else []
  | _ => []

/-- `strings.Cut` at the first equals sign. -/
def cutEq (s : Str) : Str × Str := (s.takeWhile (· ≠ '='), (s.dropWhile (· ≠ '=')).drop 1)

def firstNonEmpty (vals : List Str) : Str := (vals.find? (· ≠ [])).getD []

/-- A friendly name and a model from the keys of a TXT record. -/
def descFromTXT (txt : List Str) : Str :=
  let kv : Map Str Str := txt.foldl (fun kv s =>
    let (k, v) := cutEq s
    let k := toLower (trimSpace k)
    if k ≠ [] then kv.insert k (trimSpace v) else kv) ∅
  let get (keys : List String) := firstNonEmpty (keys.map fun k => (kv.lookup k.toList).getD [])
  let paren (c : Char) : Bool := c = '(' || c = ')'
  let name := get ["fn", "n", "nm"]
  let model := ((get ["ty", "md", "model", "product", "usb_mdl"]).dropWhile paren).rdropWhile paren
  if name ≠ [] && model ≠ [] && !decide (toLower model <:+: toLower name) then
    name ++ " (".toList ++ model ++ [')']
  else if name ≠ [] then name
  else model

/-- The strings of a TXT record that are kept, up to a number. -/
def curateTXT (txt : List Str) : List Str :=
  ((txt.map trimSpace).filter fun s =>
    s ≠ [] && (s.map Char.utf8Size).sum ≤ 96 && toLower (cutEq s).1 ≠ "txtvers".toList).take 24

/-- What the TXT records give for each instance, the last one that gives something winning. -/
def byInstance {α : Type} (f : List Str → α) (some? : α → Bool) (rrs : List Record) : Map Str α :=
  rrs.foldl (fun m r =>
    match r.data with
    | .txt strings => if some? (f strings) then m.insert (toLower r.hdr.name) (f strings) else m
    | _ => m) ∅

def parseServices (packet : Option Msg) : List Service :=
  let rrs := announced packet
  let descByInst := byInstance descFromTXT (· ≠ []) rrs
  let textByInst := byInstance curateTXT (· ≠ []) rrs
  rrs.foldl (fun out r =>
    match r.data with
    | .srv _ _ port target =>
      let host := canonHost target
      let type := serviceType r.hdr.name
      if host = [] || type = [] then out
      else if out.any fun s => s.host ++ '|' :: s.type = host ++ '|' :: type then out
      else
        let inst := toLower r.hdr.name
        out ++ [{ host, type, port, ttl := r.hdr.ttl, desc := (descByInst.lookup inst).getD [],
                  text := (textByInst.lookup inst).getD [] }]
    | _ => out) []

end Services

/-- An announcement for a host, with addresses that have no zone. -/
def Announcement.Proper (a : Announcement) : Prop :=
  a.host ≠ [] ∧ ∀ x ∈ a.addrs, x.isValid = true ∧ x.zone = []

theorem zone_recordAddr {data : RData} {x : Addr} (h : recordAddr data = some x) :
    x.zone = [] := by
  rcases data with ip | ip <;> simp only [recordAddr, reduceCtorEq] at h
  · rcases hip : ip.unmap with _ | b | ⟨b, z⟩ <;> simp only [hip, reduceCtorEq] at h
    cases h
    rfl
  · rcases ip with _ | b | ⟨b, z⟩ <;> simp only [reduceCtorEq] at h
    · cases h
      rfl
    · cases h
      rfl

theorem zone_unmap {x : Addr} (h : x.zone = []) : x.unmap.zone = [] := by
  rcases x with _ | b | ⟨b, z⟩
  · rfl
  · rfl
  · rw [Addr.unmap]
    split_ifs
    · rfl
    · exact h

theorem proper_add {a : Announcement} {addr : Addr} {ttl : UInt32} (ha : a.Proper)
    (haddr : addr.isValid = true ∧ addr.zone = []) : (a.add addr ttl).Proper := by
  unfold Announcement.add
  by_cases hmem : addr ∈ a.addrs
  · rw [if_pos hmem]
    exact ha
  · rw [if_neg hmem]
    refine ⟨ha.1, fun x hx => ?_⟩
    rcases List.mem_append.mp hx with hx | hx
    · exact ha.2 x hx
    · rw [List.mem_singleton.mp hx]
      exact haddr

theorem proper_addTo {found : List Announcement} {host : Str} {addr : Addr} {ttl : UInt32}
    (hz : addr.zone = []) (h : ∀ a ∈ found, a.Proper) :
    ∀ a ∈ addTo found host addr ttl, a.Proper := by
  unfold addTo
  by_cases hskip : (host = [] || !addr.isValid) = true
  · rw [if_pos hskip]
    exact h
  · rw [if_neg hskip]
    have hguard : host ≠ [] ∧ addr.isValid = true := by simpa using hskip
    have haddr : addr.unmap.isValid = true ∧ addr.unmap.zone = [] :=
      ⟨Addr.isValid_unmap hguard.2, zone_unmap hz⟩
    dsimp only
    split_ifs
    · exact h
    · intro a ha
      obtain ⟨a₀, ha₀, rfl⟩ := List.mem_map.mp ha
      split_ifs
      · exact proper_add (h a₀ ha₀) haddr
      · exact h a₀ ha₀
    · intro a ha
      rcases List.mem_append.mp ha with ha | ha
      · exact h a ha
      · rw [List.mem_singleton.mp ha]
        exact proper_add ⟨hguard.1, by simp⟩ haddr

theorem parsePacket_proper (packet : Option Msg) : ∀ a ∈ parsePacket packet, a.Proper := by
  unfold parsePacket
  refine List.foldlRecOn (motive := fun found => ∀ a ∈ found, Announcement.Proper a)
    _ _ (by simp) ?_
  intro found h r _
  rcases hr : recordAddr r.data with _ | addr
  · exact h
  · exact proper_addTo (zone_recordAddr hr) h

end SplitDNS.MDNS
