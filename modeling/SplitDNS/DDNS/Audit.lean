import SplitDNS.DDNS.Writer
import SplitDNS.Go.Encoding

/-! # The audit trail

Every entry of the trail carries the hash of the one before it, and its own hash
is taken over that and the text of its other fields. What is appended is accepted
by the verifier. The text of an entry joins its fields with a bar that nothing
escapes, so the last hash pins the entries down only if no field has a bar.
-/

namespace SplitDNS.DDNS

open Go Go.Strings

@[ext]
structure Entry where
  seq : UInt64
  prevHash : Str
  hash : Str
  time : Str
  tokenID : Str
  host : Str
  change : Str
  result : Str
  detail : Str
  deriving DecidableEq

/-- The trail so far: the number of entries and the hash of the last one. -/
structure Audit where
  tokenID : Str
  seq : UInt64 := 0
  prev : Str := []

def Entry.texts (e : Entry) : List Str := [e.time, e.tokenID, e.host, e.change, e.result, e.detail]

/-- The text of an entry that is hashed: all its fields but the hash. -/
def Entry.payload (e : Entry) : Str :=
  join (formatUint e.seq.toNat :: e.prevHash :: e.texts) '|'

def nul : Char := Char.ofNat 0

section Chain

variable (sha256 : Str → List UInt8)

def chainHash (prev : Str) (e : Entry) : Str := hexEncode (sha256 (prev ++ nul :: e.payload))

/-- The loop of the verifier: the index of the first broken entry, or -1 if there is none. -/
def verifyFrom (i : ℕ) (prev : Str) : List Entry → ℤ × Bool
  | [] => (-1, true)
  | e :: entries =>
    if e.seq ≠ UInt64.ofNat i then (i, false)
    else if e.prevHash ≠ prev then (i, false)
    else if chainHash sha256 prev e ≠ e.hash then (i, false)
    else verifyFrom (i + 1) e.hash entries

def verifyChain (entries : List Entry) : ℤ × Bool := verifyFrom sha256 0 [] entries

variable (rfc3339 : Time → Str)

/-- `Audit.Append`: the trail after it, and the entry. -/
def Audit.append (a : Audit) (t : Time) (host change result detail : Str) : Audit × Entry :=
  let e : Entry :=
    { seq := a.seq
      prevHash := a.prev
      hash := []
      time := rfc3339 t
      tokenID := a.tokenID
      host, change, result, detail }
  let hash := chainHash sha256 a.prev e
  ({ a with seq := a.seq + 1, prev := hash }, { e with hash })

/-- The entries that the lines of the writer become, each with its instant. -/
def Audit.log (a : Audit) : List (Time × AuditLine) → List Entry
  | [] => []
  | (t, line) :: lines =>
    let r := a.append sha256 rfc3339 t line.host line.action line.outcome.text line.detail
    r.2 :: Audit.log r.1 lines

end Chain

variable {sha256 : Str → List UInt8} {rfc3339 : Time → Str} {i : ℕ} {prev prev' : Str}
  {e e' : Entry} {entries entries' : List Entry}

/-- The entry continues a chain of some length that ends in a hash. -/
structure Entry.Continues (sha256 : Str → List UInt8) (i : ℕ) (prev : Str) (e : Entry) : Prop where
  seq : e.seq = UInt64.ofNat i
  prevHash : e.prevHash = prev
  hash : e.hash = chainHash sha256 prev e

theorem verifyFrom_continues (he : e.Continues sha256 i prev) (entries : List Entry) :
    verifyFrom sha256 i prev (e :: entries) = verifyFrom sha256 (i + 1) e.hash entries := by
  rw [verifyFrom, if_neg (not_not.mpr he.seq), if_neg (not_not.mpr he.prevHash),
    if_neg (not_not.mpr he.hash.symm)]

theorem verifyFrom_broken (he : ¬ e.Continues sha256 i prev) (entries : List Entry) :
    verifyFrom sha256 i prev (e :: entries) = (↑i, false) := by
  rw [verifyFrom]
  split_ifs with hseq hprev hhash
  · rfl
  · rfl
  · rfl
  · exact absurd ⟨not_not.mp hseq, not_not.mp hprev, (not_not.mp hhash).symm⟩ he

theorem verifyFrom_cons :
    (verifyFrom sha256 i prev (e :: entries)).2 = true ↔
      e.Continues sha256 i prev ∧ (verifyFrom sha256 (i + 1) e.hash entries).2 = true := by
  by_cases he : e.Continues sha256 i prev
  · rw [verifyFrom_continues he]
    exact (and_iff_right he).symm
  · simp [verifyFrom_broken he, he]

theorem append_continues {tokenID : Str} (t : Time) (host change result detail : Str) :
    (Audit.append sha256 rfc3339 ⟨tokenID, UInt64.ofNat i, prev⟩ t host change result
      detail).2.Continues
      sha256 i prev :=
  ⟨rfl, rfl, rfl⟩

theorem log_verifyFrom (tokenID : Str) (lines : List (Time × AuditLine)) :
    verifyFrom sha256 i prev
      (Audit.log sha256 rfc3339 ⟨tokenID, UInt64.ofNat i, prev⟩ lines) = (-1, true) := by
  induction lines generalizing i prev with
  | nil => rfl
  | cons line lines ih =>
    have hnext : UInt64.ofNat i + 1 = UInt64.ofNat (i + 1) := (UInt64.ofNat_add i 1).symm
    rw [Audit.log, verifyFrom_continues (append_continues line.1 _ _ _ _)]
    simp only [Audit.append, hnext]
    exact ih

theorem log_verifyChain (tokenID : Str) (lines : List (Time × AuditLine)) :
    verifyChain sha256 (Audit.log sha256 rfc3339 { tokenID } lines) = (-1, true) :=
  log_verifyFrom tokenID lines

section Hashed

theorem nul_not_mem_hexEncode (bytes : List UInt8) : nul ∉ hexEncode bytes := by
  intro h
  obtain ⟨d, hd⟩ := mem_hexEncode h
  have hall : ∀ d : Fin 16, nul ≠ Nat.digitChar d := by decide
  exact hall d hd

/-- Entries that are hashed alike: they differ in how their text is divided at most. -/
structure Entry.Alike (e e' : Entry) : Prop where
  seq : e.seq = e'.seq
  prevHash : e.prevHash = e'.prevHash
  hash : e.hash = e'.hash
  texts : join e.texts '|' = join e'.texts '|'

theorem Entry.payload_eq (e : Entry) :
    e.payload = formatUint e.seq.toNat ++ '|' :: (e.prevHash ++ '|' :: join e.texts '|') := by
  rw [Entry.payload, join_cons_cons, Entry.texts, join_cons_cons]

theorem Entry.Alike.payload (h : e.Alike e') : e.payload = e'.payload := by
  rw [Entry.payload_eq, Entry.payload_eq, h.seq, h.prevHash, h.texts]

theorem Entry.Alike.eq_of_no_bar (h : e'.Alike e) (hbar : ∀ s ∈ e.texts, '|' ∉ s) : e' = e := by
  have htexts : e'.texts = e.texts := eq_of_join_eq rfl hbar h.texts
  simp only [Entry.texts, List.cons.injEq, and_true] at htexts
  exact Entry.ext_iff.mpr ⟨h.seq, h.prevHash, h.hash, htexts⟩

theorem Entry.exists_alike (h : ∃ s ∈ e.texts, '|' ∈ s) : ∃ e' : Entry, e'.Alike e ∧ e' ≠ e := by
  obtain ⟨l, hlen, hne, hjoin⟩ := @exists_join_eq e.texts '|' (by simp [Entry.texts]) h
  match l, hlen with
  | [time, tokenID, host, change, result, detail], _ =>
    refine ⟨⟨e.seq, e.prevHash, e.hash, time, tokenID, host, change, result, detail⟩,
      ⟨rfl, rfl, rfl, hjoin⟩, ?_⟩
    intro heq
    exact hne (congrArg Entry.texts heq)

theorem forall₂_alike_refl (entries : List Entry) : List.Forall₂ Entry.Alike entries entries :=
  List.forall₂_same.mpr fun _ _ => ⟨rfl, rfl, rfl, rfl⟩

theorem verifyFrom_congr (h : List.Forall₂ Entry.Alike entries' entries) :
    verifyFrom sha256 i prev entries' = verifyFrom sha256 i prev entries := by
  induction h generalizing i prev with
  | nil => rfl
  | cons he _ ih =>
    rw [verifyFrom, verifyFrom, chainHash, chainHash, he.seq, he.prevHash, he.hash, he.payload, ih]

theorem Entry.Continues.alike (hsha : Function.Injective sha256) (hprev : nul ∉ prev)
    (hprev' : nul ∉ prev') (he : e.Continues sha256 i prev) (he' : e'.Continues sha256 i prev')
    (hhash : e'.hash = e.hash) : prev' = prev ∧ e'.Alike e := by
  have htext : prev' ++ nul :: e'.payload = prev ++ nul :: e.payload :=
    hsha (hexEncode_injective (he'.hash.symm.trans (hhash.trans he.hash)))
  obtain ⟨hpp, hpayload⟩ := append_sep_inj hprev' hprev htext
  have hseq : e'.seq = e.seq := he'.seq.trans he.seq.symm
  have hprevs : e'.prevHash = e.prevHash := by rw [he'.prevHash, he.prevHash, hpp]
  rw [Entry.payload_eq, Entry.payload_eq, hseq, hprevs] at hpayload
  have htexts := (List.cons.inj (List.append_cancel_left
    (List.cons.inj (List.append_cancel_left hpayload)).2)).2
  exact ⟨hpp, hseq, hprevs, hhash, htexts⟩

theorem alike_of_verified (hsha : Function.Injective sha256) (hprev : nul ∉ prev)
    (hprev' : nul ∉ prev') (h : (verifyFrom sha256 i prev entries).2 = true)
    (h' : (verifyFrom sha256 i prev' entries').2 = true)
    (hlen : entries'.length = entries.length)
    (hlast : entries'.getLast?.map Entry.hash = entries.getLast?.map Entry.hash) :
    List.Forall₂ Entry.Alike entries' entries ∧ (entries ≠ [] → prev' = prev) := by
  -- from the end of the chains back: the hash of an entry is what the next one starts from
  induction entries generalizing i prev prev' entries' with
  | nil =>
    obtain rfl := List.length_eq_zero_iff.mp hlen
    exact ⟨.nil, fun hne => absurd rfl hne⟩
  | cons e entries ih =>
    obtain ⟨e', entries', rfl⟩ := List.exists_cons_of_length_eq_add_one hlen
    obtain ⟨he, hrest⟩ := verifyFrom_cons.mp h
    obtain ⟨he', hrest'⟩ := verifyFrom_cons.mp h'
    have hlen : entries'.length = entries.length := Nat.succ.inj hlen
    have hnul : nul ∉ e.hash := by
      rw [he.hash]
      exact nul_not_mem_hexEncode _
    have hnul' : nul ∉ e'.hash := by
      rw [he'.hash]
      exact nul_not_mem_hexEncode _
    rcases entries with _ | ⟨f, entries⟩
    · obtain rfl := List.length_eq_zero_iff.mp hlen
      obtain ⟨hpp, halike⟩ := he.alike hsha hprev hprev' he' (by simpa using hlast)
      exact ⟨.cons halike .nil, fun _ => hpp⟩
    · obtain ⟨f', entries', rfl⟩ := List.exists_cons_of_length_eq_add_one hlen
      obtain ⟨halikes, hhash⟩ := ih hnul hnul' hrest hrest' hlen hlast
      obtain ⟨hpp, halike⟩ := he.alike hsha hprev hprev' he' (hhash (List.cons_ne_nil _ _))
      exact ⟨.cons halike halikes, fun _ => hpp⟩

end Hashed

/-- An accepted trail is the only one of its length that ends in its last hash exactly if none of
its fields has a bar. -/
theorem verifyChain_unique_iff (hsha : Function.Injective sha256)
    (h : (verifyChain sha256 entries).2 = true) :
    (∀ entries', (verifyChain sha256 entries').2 = true → entries'.length = entries.length →
        entries'.getLast?.map Entry.hash = entries.getLast?.map Entry.hash → entries' = entries) ↔
      ∀ e ∈ entries, ∀ s ∈ e.texts, '|' ∉ s := by
  constructor
  · intro hunique e he s hs hbar
    obtain ⟨e', halike, hne⟩ := Entry.exists_alike ⟨s, hs, hbar⟩
    obtain ⟨front, back, rfl⟩ := List.append_of_mem he
    have halikes : List.Forall₂ Entry.Alike (front ++ e' :: back) (front ++ e :: back) :=
      List.rel_append (forall₂_alike_refl front) (.cons halike (forall₂_alike_refl back))
    have h' : (verifyChain sha256 (front ++ e' :: back)).2 = true := by
      rw [verifyChain, verifyFrom_congr halikes]
      exact h
    have hlast : (front ++ e' :: back).getLast?.map Entry.hash =
        (front ++ e :: back).getLast?.map Entry.hash := by
      rcases back with _ | ⟨f, back⟩
      · simp [halike.hash]
      · simp
    have heq := hunique (front ++ e' :: back) h' (by simp) hlast
    exact hne (List.cons.inj (List.append_cancel_left heq)).1
  · intro hplain entries' h' hlen hlast
    obtain ⟨halikes, -⟩ := alike_of_verified hsha List.not_mem_nil List.not_mem_nil h h' hlen hlast
    clear h h' hlen hlast
    induction halikes with
    | nil => rfl
    | cons halike _ ih =>
      rw [halike.eq_of_no_bar (hplain _ List.mem_cons_self),
        ih fun e he => hplain e (List.mem_cons_of_mem _ he)]

/-- A hash without collisions: three bytes for every character. -/
def spread (s : Str) : List UInt8 :=
  s.flatMap fun c =>
    [UInt8.ofNat c.toNat, UInt8.ofNat (c.toNat / 256), UInt8.ofNat (c.toNat / 65536)]

theorem spread_injective : Function.Injective spread := by
  intro s
  induction s with
  | nil =>
    rintro (_ | ⟨d, t⟩) h
    · rfl
    · cases h
  | cons c s ih =>
    rintro (_ | ⟨d, t⟩) h
    · cases h
    · simp only [spread, List.flatMap_cons, List.cons_append, List.nil_append, List.cons.injEq,
        ← UInt8.toNat_inj, UInt8.toNat_ofNat'] at h
      obtain ⟨h₀, h₁, h₂, hrest⟩ := h
      have hlt : ∀ c : Char, c.toNat < 16777216 := by
        intro c
        rcases c.valid with hc | ⟨-, hc⟩
        · exact lt_trans hc (by decide)
        · exact lt_trans hc (by decide)
      have hc := hlt c
      have hd := hlt d
      have hcd : c.toNat = d.toNat := by omega
      rw [ih hrest, Char.toNat_inj.mp hcd]

theorem verifyChain_unique_plain :
    ∃ entries, (verifyChain spread entries).2 = true ∧ entries.length = 1 ∧
      ∀ entries', (verifyChain spread entries').2 = true → entries'.length = entries.length →
        entries'.getLast?.map Entry.hash = entries.getLast?.map Entry.hash →
          entries' = entries := by
  have h := @log_verifyChain spread (fun _ => []) [] [(0, ⟨"nas".toList, [], .applied, []⟩)]
  refine ⟨_, congrArg Prod.snd h, rfl, ?_⟩
  refine (verifyChain_unique_iff spread_injective (congrArg Prod.snd h)).mpr ?_
  intro e he
  rw [List.mem_singleton.mp he]
  decide

/-- A bar that is moved from one field to the next is not noticed. -/
theorem moved_bar_accepted :
    ∃ sha256, Function.Injective sha256 ∧ ∃ entries entries',
      verifyChain sha256 entries = (-1, true) ∧ verifyChain sha256 entries' = (-1, true) ∧
      entries'.length = entries.length ∧
      entries'.getLast?.map Entry.hash = entries.getLast?.map Entry.hash ∧ entries' ≠ entries := by
  refine ⟨spread, spread_injective, _, _,
    @log_verifyChain spread (fun _ => []) [] [(0, ⟨"a|b".toList, "c".toList, .applied, []⟩)],
    @log_verifyChain spread (fun _ => []) [] [(0, ⟨"a".toList, "b|c".toList, .applied, []⟩)],
    rfl, ?_, ?_⟩
  · rfl
  · intro heq
    have hhost := congrArg (fun l => (l.map Entry.host)) heq
    exact absurd hhost (by decide)

end SplitDNS.DDNS
