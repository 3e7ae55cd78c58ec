import SplitDNS.Dns.Message
import SplitDNS.Go.NetipText

/-! # Presentation lines

A reader for lines of five plain fields, `name ttl class type rdata`. It agrees
with `dns.NewRR` on lines without quoting, escapes or comments, and is what the
model is evaluated with.
-/

namespace Dns

open Go Go.Netip Go.Strings

/-- The data of a record from its text; addresses must be of the type's family. -/
def readRData (t : RRType) (s : Str) : Option RData :=
  if t = typeA then (parseAddr s).bind fun a => if a.is4 then some (.a a) else none
  else if t = typeAAAA then (parseAddr s).bind fun a => if a.is6 then some (.aaaa a) else none
  else if s = [] then none else some (.text s)

def readLine : NewRR := fun line =>
  match split line ' ' with
  | name :: ttl :: cls :: type :: rdata =>
    let parsed := do
      let ttl ← parseUint ttl 32
      let type ← stringToType type
      let data ← readRData type (join rdata ' ')
      if cls = "IN".toList then some (Record.mk ⟨name, type, classINET, UInt32.ofNat ttl⟩ data)
      else none
    match parsed with
    | some r => .ok (some r)
    | none => .error "dns: bad record".toList
  | _ => .error "dns: bad line".toList

theorem split_line {n ttl cls type : Str} (rdata : Str) (hn : ' ' ∉ n) (httl : ' ' ∉ ttl)
    (hcls : ' ' ∉ cls) (htype : ' ' ∉ type) :
    split (join [n, ttl, cls, type, rdata] ' ') ' ' =
      n :: ttl :: cls :: type :: split rdata ' ' := by
  simp only [join_cons_cons, split_append, split_of_not_mem hn, split_of_not_mem httl,
    split_of_not_mem hcls, split_of_not_mem htype]
  simp [join]

theorem readLine_join_iff {name ttl type rdata : Str} {n : ℕ} {t : RRType}
    (hplain : ∀ f ∈ [name, ttl, type, rdata], ' ' ∉ f) (httl : parseUint ttl 32 = some n)
    (htype : stringToType type = some t) :
    (∃ rec, readLine (join [name, ttl, "IN".toList, type, rdata] ' ') = .ok (some rec)) ↔
      (readRData t rdata).isSome := by
  simp only [List.forall_mem_cons, List.not_mem_nil, false_imp_iff, implies_true,
    and_true] at hplain
  obtain ⟨hname, httl', htype', hrdata⟩ := hplain
  have hsplit := split_line rdata hname httl' (show ' ' ∉ "IN".toList by decide) htype'
  rw [split_of_not_mem hrdata] at hsplit
  have hjoin : join [rdata] ' ' = rdata := by simp [join]
  unfold readLine
  rw [hsplit]
  dsimp only
  rw [hjoin, httl, htype]
  rcases hd : readRData t rdata with _ | data
  · simp [hd]
  · simp [hd]

/-- `NewRR` reads the lines of records as they are written, for the texts that are names: the record
is of the owner and the type of its line, and the line of an alias of a name is read. -/
structure ReadsNames (newRR : NewRR) (IsName : Str → Prop) : Prop where
  qualified {n : Str} : IsName n → fqdn n = n
  lower {n : Str} : IsName n → IsName (toLower n)
  header {n rdata : Str} {ttl : UInt32} {c : UInt16} {t : RRType} {rec : Record} : IsName n →
    typeToString t ≠ [] →
    newRR (join [n, formatUint ttl.toNat, classToString c, typeToString t, rdata] ' ') =
      .ok (some rec) →
    rec.hdr.name = n ∧ rec.hdr.rrtype = t
  reads {n target : Str} (ttl : UInt32) : IsName n → IsName target →
    newRR (join [n, formatUint ttl.toNat, classToString classINET, typeToString typeCNAME, target]
      ' ') = .ok (some ⟨⟨n, typeCNAME, classINET, ttl⟩, .text target⟩)

def PlainName (s : Str) : Prop := fqdn s = s ∧ ' ' ∉ s

instance (s : Str) : Decidable (PlainName s) := inferInstanceAs (Decidable (_ ∧ _))

theorem mem_of_lookup_eq_some {α β : Type*} [BEq α] [LawfulBEq α] {l : List (α × β)} {a : α} {b : β}
    (h : l.lookup a = some b) : (a, b) ∈ l := by
  obtain ⟨l₁, l₂, rfl, -⟩ := List.lookup_eq_some_iff.mp h
  simp

theorem stringToType_typeToString {t : RRType} (h : typeToString t ≠ []) :
    stringToType (typeToString t) = some t ∧ ' ' ∉ typeToString t := by
  have hall : ∀ p ∈ typeNames, stringToType p.2.toList = some p.1 ∧ ' ' ∉ p.2.toList := by
    decide +kernel
  rcases hl : typeNames.lookup t with _ | s
  · simp [typeToString, hl] at h
  · simpa [typeToString, hl] using hall _ (mem_of_lookup_eq_some hl)

theorem blank_not_mem_formatUint (n : ℕ) : ' ' ∉ formatUint n := by
  intro h
  have := isDigit_of_mem_formatUint h
  exact absurd this (by decide)

theorem blank_not_mem_classToString (c : UInt16) : ' ' ∉ classToString c := by
  have hall : ∀ p ∈ ([(1, "IN"), (2, "CS"), (3, "CH"), (4, "HS"), (254, "NONE"), (255, "ANY")] :
      List (UInt16 × String)), ' ' ∉ p.2.toList := by decide
  unfold classToString
  rcases hl : List.lookup c _ with _ | s
  · simp
  · exact hall _ (mem_of_lookup_eq_some hl)

theorem readLine_line {n rdata : Str} {ttl : UInt32} {c : UInt16} {t : RRType} {rec : Record}
    (hn : PlainName n) (ht : typeToString t ≠ [])
    (h : readLine (join [n, formatUint ttl.toNat, classToString c, typeToString t, rdata] ' ') =
      .ok (some rec)) :
    rec.hdr.name = n ∧ rec.hdr.rrtype = t ∧ readRData t rdata = some rec.data := by
  obtain ⟨htype, hblank⟩ := stringToType_typeToString ht
  rw [readLine, split_line rdata hn.2 (blank_not_mem_formatUint _) (blank_not_mem_classToString c)
    hblank] at h
  dsimp only at h
  rw [parseUint_formatUint ttl.toNat_lt, htype, join_split] at h
  rcases hd : readRData t rdata with _ | data
  · simp [hd] at h
  · simp only [hd, Option.bind_eq_bind, Option.bind_some] at h
    split_ifs at h
    cases h
    exact ⟨rfl, rfl, rfl⟩

theorem readLine_eq_some {n rdata : Str} {t : RRType} {data : RData} (ttl : UInt32)
    (hn : PlainName n) (ht : typeToString t ≠ []) (hdata : readRData t rdata = some data) :
    readLine (join [n, formatUint ttl.toNat, classToString classINET, typeToString t, rdata] ' ') =
      .ok (some ⟨⟨n, t, classINET, ttl⟩, data⟩) := by
  obtain ⟨htype, hblank⟩ := stringToType_typeToString ht
  rw [readLine, split_line rdata hn.2 (blank_not_mem_formatUint _) (blank_not_mem_classToString _)
    hblank]
  dsimp only
  rw [parseUint_formatUint ttl.toNat_lt, htype, join_split]
  simp [hdata, classToString, classINET]

theorem readsNames_readLine : ReadsNames readLine PlainName where
  qualified {n} h := h.1
  lower {n} h := by
    refine ⟨by rw [fqdn_toLower, h.1], fun hmem => ?_⟩
    obtain ⟨c, hc, heq⟩ := List.mem_map.mp hmem
    exact h.2 ((toLower_char_eq_iff (by decide) (by decide)).mp heq ▸ hc)
  header {n rdata ttl c t rec} hn ht h := by
    obtain ⟨hname, htype, -⟩ := readLine_line hn ht h
    exact ⟨hname, htype⟩
  reads {n target} ttl hn htarget := by
    have hne : target ≠ [] := by
      intro hnil
      rw [hnil] at htarget
      exact absurd htarget.1 (by decide)
    have hdata : readRData typeCNAME target = some (.text target) := by
      simp [readRData, hne, typeCNAME, typeA, typeAAAA]
    exact readLine_eq_some ttl hn (by decide) hdata

/-- `NewRR` reads the data of an address record as the address that the text means. -/
structure ReadsAddrs (newRR : NewRR) (IsName : Str → Prop) : Prop where
  a {n s : Str} {ttl : UInt32} {c : UInt16} {rec : Record} {x : Addr} : IsName n →
    parseAddr s = some x →
    newRR (join [n, formatUint ttl.toNat, classToString c, typeToString typeA, s] ' ') =
      .ok (some rec) →
    rec.data = .a x
  aaaa {n s : Str} {ttl : UInt32} {c : UInt16} {rec : Record} {x : Addr} : IsName n →
    parseAddr s = some x →
    newRR (join [n, formatUint ttl.toNat, classToString c, typeToString typeAAAA, s] ' ') =
      .ok (some rec) →
    rec.data = .aaaa x

theorem readsAddrs_readLine : ReadsAddrs readLine PlainName where
  a {n s ttl c rec x} hn hx h := by
    have hdata := (readLine_line hn (by decide) h).2.2
    rw [readRData, if_pos rfl, hx, Option.bind_some] at hdata
    split_ifs at hdata
    exact (Option.some.inj hdata).symm
  aaaa {n s ttl c rec x} hn hx h := by
    have hdata := (readLine_line hn (by decide) h).2.2
    rw [readRData, if_neg (by decide), if_pos rfl, hx, Option.bind_some] at hdata
    split_ifs at hdata
    exact (Option.some.inj hdata).symm

/-- `NewRR` reads the line of an address of the family, if it has no zone. -/
structure AcceptsAddrs (newRR : NewRR) (IsName : Str → Prop) : Prop where
  a {n : Str} {x : Addr} (ttl : UInt32) : IsName n → x.is4 = true →
    ∃ rec, newRR (join [n, formatUint ttl.toNat, classToString classINET, typeToString typeA,
      x.string] ' ') = .ok (some rec)
  aaaa {n : Str} {x : Addr} (ttl : UInt32) : IsName n → x.is6 = true → x.zone = [] →
    ∃ rec, newRR (join [n, formatUint ttl.toNat, classToString classINET, typeToString typeAAAA,
      x.string] ' ') = .ok (some rec)

theorem acceptsAddrs_readLine : AcceptsAddrs readLine PlainName where
  a {n x} ttl hn hx := by
    have hvalid : x.isValid = true := by cases x <;> simp_all [Addr.is4, Addr.isValid]
    have hdata : readRData typeA x.string = some (.a x) := by
      rw [readRData, if_pos rfl, parseAddr_string hvalid, Option.bind_some, if_pos hx]
    exact ⟨_, readLine_eq_some ttl hn (by decide) hdata⟩
  aaaa {n x} ttl hn hx _ := by
    have hvalid : x.isValid = true := by cases x <;> simp_all [Addr.is6, Addr.isValid]
    have hdata : readRData typeAAAA x.string = some (.aaaa x) := by
      rw [readRData, if_neg (by decide), if_pos rfl, parseAddr_string hvalid, Option.bind_some,
        if_pos hx]
    exact ⟨_, readLine_eq_some ttl hn (by decide) hdata⟩

example : readLine "nas.lan. 120 IN A 10.0.0.5".toList =
    .ok (some ⟨⟨"nas.lan.".toList, typeA, classINET, 120⟩, .a (.v4 0x0a000005)⟩) := by
  decide

end Dns
