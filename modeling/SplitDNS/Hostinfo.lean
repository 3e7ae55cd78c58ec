import SplitDNS.Go.Bytes
import SplitDNS.Go.Netip
import SplitDNS.Go.Maps

/-! # Hardware addresses of hosts

The kernel's table of neighbours as a run of messages, each with a run of
attributes behind a fixed header. Reading the attributes never leaves the bytes,
and reads back what was written.
-/

namespace SplitDNS.Hostinfo

open Go Go.Netip

structure RtAttr where
  typ : UInt16
  val : Bytes
  deriving DecidableEq

def aligned (n : ℕ) : ℕ := (n + 3) / 4 * 4

/-- The loop of `parseRtAttrs`. A read out of range gives nothing. -/
def walk (b : Bytes) (out : List RtAttr) : Option (List RtAttr) :=
  if 4 ≤ b.length then
    match (slice b 0 2).bind uint16, (slice b 2 4).bind uint16 with
    | some alen, some atyp =>
      if alen < 4 || b.length < alen.toNat then some out
      else
        match slice b 4 alen.toNat with
        | none => none
        | some val =>
          if _h : aligned alen.toNat ≤ 0 ∨ b.length < aligned alen.toNat then
            some (out ++ [⟨atyp, val⟩])
          else
            match _hs : slice b (aligned alen.toNat) b.length with
            | none => none
            | some rest => walk rest (out ++ [⟨atyp, val⟩])
    | _, _ => none
  else some out
termination_by b.length
decreasing_by
  rw [length_of_slice _hs]
  omega

def parseRtAttrs (b : Bytes) : Option (List RtAttr) := walk b []

/-- An attribute as the kernel writes it, without the padding behind it. -/
def encodeAttr (a : RtAttr) : Bytes :=
  putUint16 (.ofNat (a.val.length + 4)) ++ putUint16 a.typ ++ a.val

/-- The bytes of a list of attributes, each padded with any bytes, the last one or not. -/
inductive Encodes : List RtAttr → Bytes → Prop
  | nil : Encodes [] []
  | last (a : RtAttr) : Encodes [a] (encodeAttr a)
  | cons (a : RtAttr) {as : List RtAttr} {pad rest : Bytes}
      (hpad : (encodeAttr a ++ pad).length = aligned (encodeAttr a).length)
      (h : Encodes as rest) : Encodes (a :: as) (encodeAttr a ++ pad ++ rest)

section Attributes

variable {b : Bytes} {out : List RtAttr} {a : RtAttr} {alen atyp : UInt16}

theorem aligned_le {n : ℕ} : n ≤ aligned n ∧ aligned n < n + 4 := by
  unfold aligned
  omega

theorem walk_eq (h : 4 ≤ b.length) (hlen : (slice b 0 2).bind uint16 = some alen)
    (htyp : (slice b 2 4).bind uint16 = some atyp) :
    walk b out =
      if alen.toNat < 4 ∨ b.length < alen.toNat then some out
      else if b.length < aligned alen.toNat then
        some (out ++ [⟨atyp, (b.take alen.toNat).drop 4⟩])
      else walk (b.drop (aligned alen.toNat)) (out ++ [⟨atyp, (b.take alen.toNat).drop 4⟩]) := by
  have hcond : (decide (alen < 4) || decide (b.length < alen.toNat)) = true ↔
      alen.toNat < 4 ∨ b.length < alen.toNat := by
    rw [Bool.or_eq_true, decide_eq_true_eq, decide_eq_true_eq, UInt16.lt_iff_toNat_lt]
    rfl
  rw [walk, if_pos h, hlen, htyp]
  dsimp only
  by_cases hbad : alen.toNat < 4 ∨ b.length < alen.toNat
  · rw [if_pos (hcond.mpr hbad), if_pos hbad]
  · have hin := not_or.mp hbad
    rw [if_neg (mt hcond.mp hbad), if_neg hbad,
      slice_eq_some (not_lt.mp hin.1) (not_lt.mp hin.2)]
    dsimp only
    have hal := @aligned_le alen.toNat
    by_cases hend : b.length < aligned alen.toNat
    · rw [dif_pos (Or.inr hend), if_pos hend]
    · have hno : ¬ (aligned alen.toNat ≤ 0 ∨ b.length < aligned alen.toNat) := by omega
      rw [dif_neg hno, if_neg hend]
      have hrest := @slice_eq_some b _ _ (not_lt.mp hend) le_rfl
      rw [List.take_length] at hrest
      split
      next hnone => exact absurd (hnone.symm.trans hrest) (by simp)
      next rest hs => rw [Option.some.inj (hs.symm.trans hrest)]

theorem walk_nil : walk [] out = some out := by
  rw [walk, if_neg (by decide)]

theorem exists_header (h : 4 ≤ b.length) :
    ∃ alen atyp, (slice b 0 2).bind uint16 = some alen ∧ (slice b 2 4).bind uint16 = some atyp := by
  have hword : ∀ lo, lo + 2 ≤ b.length → ∃ x, (slice b lo (lo + 2)).bind uint16 = some x := by
    intro lo hlo
    rw [slice_eq_some (Nat.le_add_right lo 2) hlo]
    exact exists_uint16 (by simp; omega)
  obtain ⟨alen, hlen⟩ := hword 0 (by omega)
  obtain ⟨atyp, htyp⟩ := hword 2 (by omega)
  exact ⟨alen, atyp, hlen, htyp⟩

theorem walk_isSome (b : Bytes) (out : List RtAttr) : (walk b out).isSome = true := by
  induction hn : b.length using Nat.strongRecOn generalizing b out with
  | ind n ih =>
    by_cases h : 4 ≤ b.length
    · obtain ⟨alen, atyp, hlen, htyp⟩ := exists_header h
      rw [walk_eq h hlen htyp]
      split_ifs with hbad hend
      · rfl
      · rfl
      · have hal := @aligned_le alen.toNat
        refine ih _ ?_ _ _ rfl
        rw [List.length_drop]
        omega
    · rw [walk, if_neg h]
      rfl

theorem length_encodeAttr (a : RtAttr) : (encodeAttr a).length = a.val.length + 4 := by
  simp only [encodeAttr, List.length_append, length_putUint16]
  omega

theorem walk_encodeAttr (ha : a.val.length ≤ 65531) (rest : Bytes) :
    walk (encodeAttr a ++ rest) out =
      if (encodeAttr a ++ rest).length < aligned (encodeAttr a).length then some (out ++ [a])
      else walk ((encodeAttr a ++ rest).drop (aligned (encodeAttr a).length)) (out ++ [a]) := by
  have hword : (UInt16.ofNat (a.val.length + 4)).toNat = (encodeAttr a).length := by
    rw [length_encodeAttr]
    exact UInt16.toNat_ofNat_of_lt' (show a.val.length + 4 < 65536 by omega)
  have hval := length_encodeAttr a
  have hall : (encodeAttr a ++ rest).length = a.val.length + 4 + rest.length := by
    rw [List.length_append, hval]
  have hlen : (slice (encodeAttr a ++ rest) 0 2).bind uint16 =
      some (.ofNat (a.val.length + 4)) := by
    have hslice := @slice_append [] (putUint16 (.ofNat (a.val.length + 4)))
      (putUint16 a.typ ++ a.val ++ rest) 0 2 rfl rfl
    rw [encodeAttr, List.append_assoc, List.append_assoc, ← List.append_assoc (putUint16 a.typ)]
    exact (congrArg (·.bind uint16) hslice).trans (uint16_putUint16 _)
  have htyp : (slice (encodeAttr a ++ rest) 2 4).bind uint16 = some a.typ := by
    have hslice := @slice_append (putUint16 (.ofNat (a.val.length + 4))) (putUint16 a.typ)
      (a.val ++ rest) 2 4 rfl rfl
    rw [encodeAttr, List.append_assoc]
    exact (congrArg (·.bind uint16) hslice).trans (uint16_putUint16 _)
  rw [walk_eq (by omega) hlen htyp, hword, if_neg (by omega), List.take_left]
  have hdrop : (encodeAttr a).drop 4 = a.val := List.drop_left' rfl
  rw [hdrop]

theorem walk_of_encodes {as : List RtAttr} (h : Encodes as b)
    (hval : ∀ a ∈ as, a.val.length ≤ 65531) : walk b out = some (out ++ as) := by
  induction h generalizing out with
  | nil => rw [walk_nil, List.append_nil]
  | last a =>
    have hturn := @walk_encodeAttr out a (hval a (by simp)) []
    rw [List.append_nil] at hturn
    rw [hturn, List.drop_eq_nil_of_le aligned_le.1, walk_nil]
    exact ite_self _
  | @cons a as pad rest hpad _ ih =>
    have hlen : ¬ (encodeAttr a ++ (pad ++ rest)).length < aligned (encodeAttr a).length := by
      rw [← hpad, ← List.append_assoc, List.length_append]
      omega
    rw [List.append_assoc, walk_encodeAttr (hval a (by simp)), if_neg hlen, ← List.append_assoc,
      List.drop_left' hpad, ih fun a' ha' => hval a' (by simp [ha']), List.append_assoc]
    rfl

theorem parseRtAttrs_isSome (b : Bytes) : (parseRtAttrs b).isSome = true := walk_isSome b []

/-- Any bytes are read without leaving them, and the attributes that were written are read back. -/
theorem parseRtAttrs_exact :
    (∀ b, (parseRtAttrs b).isSome = true) ∧
      ∀ as b, (∀ a ∈ as, a.val.length ≤ 65531) → Encodes as b → parseRtAttrs b = some as :=
  ⟨parseRtAttrs_isSome, fun _ _ hval h => walk_of_encodes h hval⟩

/-- Two attributes, the second one without padding. -/
theorem parseRtAttrs_exact_two :
    parseRtAttrs [8, 0, 1, 0, 10, 0, 0, 5, 6, 0, 2, 0, 7, 9] =
      some [⟨1, [10, 0, 0, 5]⟩, ⟨2, [7, 9]⟩] :=
  parseRtAttrs_exact.2 _ _ (by decide)
    (@Encodes.cons ⟨1, [10, 0, 0, 5]⟩ _ [] _ rfl (.last ⟨2, [7, 9]⟩))

end Attributes

section Neighbours

/-- A netlink message: the type of its header, and its data. -/
structure Message where
  typ : UInt16
  data : Bytes

def rtmNewNeigh : UInt16 := 28

def sizeofNdMsg : ℕ := 12

def ndaDst : UInt16 := 1

def ndaLladdr : UInt16 := 2

/-- The states of a neighbour that is reachable, stale, delayed, probed or permanent. -/
def usable : UInt16 := 0x02 ||| 0x04 ||| 0x08 ||| 0x10 ||| 0x80

def isZeroMAC (mac : Bytes) : Bool := mac.all (· = 0)

/-- What the attributes so far say of the address and the hardware address. -/
def takeAttr (found : Addr × Option Bytes) (a : RtAttr) : Addr × Option Bytes :=
  if a.typ = ndaDst then
    match addrFromSlice a.val with
    | some x => (x.unmap, found.2)
    | none => found
  else if a.typ = ndaLladdr && a.val.length = 6 && !isZeroMAC a.val then (found.1, some a.val)
  else found

/-- The neighbour of a message, if it is a usable one. A read out of range gives nothing at all. -/
def neighbor (m : Message) : Option (Option (Addr × Bytes)) :=
  if m.typ ≠ rtmNewNeigh || m.data.length < sizeofNdMsg then some none
  else
    ((slice m.data 8 10).bind uint16).bind fun state =>
      if state &&& usable = 0 then some none
      else
        ((slice m.data sizeofNdMsg m.data.length).bind parseRtAttrs).map fun attrs =>
          let found := attrs.foldl takeAttr (.invalid, none)
          if found.1.isValid then found.2.map (found.1, ·) else none

/-- `netlinkNeighbors`, for the messages of the dump. -/
def netlinkNeighbors (msgs : List Message) : Option (Map Addr Bytes) :=
  msgs.foldlM (fun out m => (neighbor m).map fun found =>
    match found with
    | some (ip, mac) => out.insert ip mac
    | none => out) ∅

/-- A hardware address of six bytes that are not all zero. -/
structure IsMAC (mac : Bytes) : Prop where
  length_eq : mac.length = 6
  ne_zero : isZeroMAC mac = false

variable {m : Message} {ip : Addr} {mac : Bytes}

theorem isMAC_foldl (attrs : List RtAttr) :
    ((attrs.foldl takeAttr (.invalid, none)).1.unmap = (attrs.foldl takeAttr (.invalid, none)).1) ∧
      ∀ mac ∈ (attrs.foldl takeAttr (.invalid, none)).2, IsMAC mac := by
  induction attrs using List.reverseRecOn with
  | nil => exact ⟨rfl, by simp⟩
  | append_singleton attrs a ih =>
    rw [List.foldl_append, List.foldl_cons, List.foldl_nil]
    generalize attrs.foldl takeAttr (.invalid, none) = found at ih ⊢
    unfold takeAttr
    split_ifs with hdst hmac
    · cases addrFromSlice a.val with
      | none => exact ih
      | some x => exact ⟨Addr.unmap_unmap x, ih.2⟩
    · refine ⟨ih.1, fun mac h => ?_⟩
      simp only [Bool.and_eq_true, decide_eq_true_eq, Bool.not_eq_true'] at hmac
      obtain rfl := Option.mem_some_iff.mp h
      exact ⟨hmac.1.2, hmac.2⟩
    · exact ih

/-- A message is read inside its data, and the neighbour it gives is an address and a hardware
address. -/
theorem neighbor_spec (m : Message) :
    ∃ found, neighbor m = some found ∧
      ∀ ip mac, found = some (ip, mac) → ip.isValid = true ∧ ip.unmap = ip ∧ IsMAC mac := by
  unfold neighbor
  split_ifs with hskip
  · exact ⟨none, rfl, by simp⟩
  · simp only [Bool.or_eq_true, decide_eq_true_eq, not_or, not_lt] at hskip
    have hlen : 12 ≤ m.data.length := hskip.2
    obtain ⟨state, hstate⟩ : ∃ x, uint16 ((m.data.take 10).drop 8) = some x :=
      exists_uint16 (by simp; omega)
    obtain ⟨attrs, hattrs⟩ := Option.isSome_iff_exists.mp
      (parseRtAttrs_isSome ((m.data.take m.data.length).drop sizeofNdMsg))
    rw [slice_eq_some (by decide) (by omega), slice_eq_some hskip.2 le_rfl, Option.bind_some,
      Option.bind_some, hstate, hattrs, Option.bind_some, Option.map_some]
    split_ifs with hstate
    · exact ⟨none, rfl, by simp⟩
    · refine ⟨_, rfl, fun ip mac hfound => ?_⟩
      dsimp only at hfound
      split_ifs at hfound with hvalid
      obtain ⟨mac', hmac, heq⟩ := Option.map_eq_some_iff.mp hfound
      cases heq
      exact ⟨hvalid, (isMAC_foldl attrs).1, (isMAC_foldl attrs).2 mac hmac⟩

/-- The table of neighbours can always be read, and maps addresses to hardware addresses. -/
theorem netlinkNeighbors_spec (msgs : List Message) :
    ∃ table, netlinkNeighbors msgs = some table ∧
      ∀ ip mac, table.lookup ip = some mac → ip.isValid = true ∧ ip.unmap = ip ∧ IsMAC mac := by
  induction msgs using List.reverseRecOn with
  | nil => exact ⟨∅, rfl, by simp⟩
  | append_singleton msgs m ih =>
    obtain ⟨table, htable, hall⟩ := ih
    obtain ⟨found, hfound, hspec⟩ := neighbor_spec m
    unfold netlinkNeighbors at htable ⊢
    rw [List.foldlM_append, htable]
    refine ⟨_, by simp [hfound]; rfl, fun ip mac hl => ?_⟩
    match found, hspec with
    | none, _ => exact hall ip mac hl
    | some (ip', mac'), hspec =>
      rw [Map.lookup_insert_eq_ite] at hl
      split_ifs at hl with heq
      · cases hl
        exact heq ▸ hspec ip' mac rfl
      · exact hall ip mac hl

end Neighbours

end SplitDNS.Hostinfo
