import Mathlib.Algebra.GroupWithZero.Nat
import SplitDNS.Dns.Labels
import SplitDNS.Go.MapSize
import SplitDNS.Runs.Basic

/-! # Virtual hosts of the reverse proxy

The feed of names behind the reverse proxy. Each line is reduced to a bare label
under one of the local zones, and the labels of the last feed that could be read
are the published set. With nested zones the label depends on which zone is
listed first.
-/

namespace SplitDNS.Vhost

open Go Go.Strings Dns

def defaultMaxBytes : ℕ := 65536

structure Feed where
  suffixes : List Str
  maxBytes : ℕ
  current : Map Str Bool

/-- A configured zone as `New` keeps it. -/
def normalizeSuffix (s : Str) : Option Str :=
  let s := toLower (trimSuffix (trimSpace s) ['.'])
  if s ≠ [] then some s else none

def new (suffixes : List Str) : Feed where
  suffixes := suffixes.filterMap normalizeSuffix
  maxBytes := defaultMaxBytes
  current := ∅

/-- The class `[a-z0-9]`. -/
def isAlnum (c : Char) : Bool := c.isLower || c.isDigit

/-- The regular expression `^[a-z0-9]([a-z0-9-]{0,61}[a-z0-9])?$`. -/
def isLabel : Str → Bool
  | [] => false
  | c :: rest =>
    isAlnum c && match rest.getLast? with
      | none => true
      | some last =>
        decide (rest.dropLast.length ≤ 61) && rest.dropLast.all (fun c => isAlnum c || c = '-') &&
          isAlnum last

/-- The loop of `normalize` over the zones. Nothing at the apex of a zone. -/
def stripZone (s : Str) : List Str → Option Str
  | [] => some s
  | sfx :: rest =>
    if s = sfx then none
    else if hasSuffix s ('.' :: sfx) then some (trimSuffix s ('.' :: sfx))
    else stripZone s rest

/-- A line of the feed in lower case, without the space around it and one trailing dot. -/
def lineName (line : Str) : Str := trimSuffix (toLower (trimSpace line)) ['.']

def Feed.normalize (f : Feed) (line : Str) : Option Str :=
  let s := lineName line
  if s = [] || hasPrefix s ['#'] then none
  else
    match stripZone s f.suffixes with
    | none => none
    | some s => if isLabel s then some s else none

section Zones

variable {s zone : Str} {zones : List Str}

end Zones

/-- `len` of a string. -/
def byteLen (s : Str) : ℕ := (s.map Char.utf8Size).sum

/-- The tokens of `bufio.Scanner`, which stops at a line that does not fit its buffer. -/
def scan (data : Str) : List Str :=
  let lines := split data '\n'
  let lines := if lines.getLast? = some [] then lines.dropLast else lines
  (lines.takeWhile fun line => byteLen line < 65536).map (trimSuffix · ['\r'])

/-- `Fetch`, of what the connection gives before it ends, or of its error. -/
def Feed.fetch (f : Feed) : Except Str Str → Except Str (Map Str Bool)
  | .error err => .error err
  | .ok data =>
    if f.maxBytes < byteLen data then
      .error ("vhost: feed exceeded ".toList ++ formatUint f.maxBytes ++
        "-byte cap — rejecting whole read".toList)
    else .ok (((scan data).filterMap f.normalize).foldl (fun set name => set.insert name true) ∅)

def setsEqual (a b : Map Str Bool) : Bool :=
  a.entries.length == b.entries.length && a.keys.all fun k => (b.lookup k).getD false

/-- `poll`, with whether `onChange` is called. -/
def Feed.poll (f : Feed) (read : Except Str Str) : Feed × Bool :=
  match f.fetch read with
  | .error _ => (f, false)
  | .ok set => if setsEqual f.current set then (f, false) else ({ f with current := set }, true)

/-- A map that holds nothing but `true`. -/
def IsSet (m : Map Str Bool) : Prop := ∀ k v, m.lookup k = some v → v = true

theorem IsSet.lookup_eq {m : Map Str Bool} (h : IsSet m) {k : Str} (hk : k ∈ m) :
    m.lookup k = some true := by
  obtain ⟨v, hv⟩ := Option.isSome_iff_exists.mp (AList.lookup_isSome.mpr hk)
  rw [hv, h k v hv]

theorem isSet_fetch {f : Feed} {read : Except Str Str} {set : Map Str Bool}
    (h : f.fetch read = .ok set) : IsSet set := by
  unfold Feed.fetch at h
  split at h
  · cases h
  · split_ifs at h
    cases h
    intro k v hv
    rcases Map.lookup_foldl_insert hv with ⟨_, -, -, hval⟩ | hnone
    · exact hval.symm
    · cases hnone

/-- The feed of a read that gave no error and no more bytes than the cap. -/
def readable (maxBytes : ℕ) : Except Str Str → Option Str
  | .error _ => none
  | .ok data => if byteLen data ≤ maxBytes then some data else none

theorem readable_of_fetch_error {f : Feed} {read : Except Str Str} {err : Str}
    (h : f.fetch read = .error err) : readable f.maxBytes read = none := by
  cases read with
  | error => rfl
  | ok data =>
    rw [Feed.fetch] at h
    split_ifs at h with hcap
    exact if_neg (not_le.mpr hcap)

theorem readable_of_fetch_ok {f : Feed} {read : Except Str Str} {set : Map Str Bool}
    (h : f.fetch read = .ok set) : ∃ data, readable f.maxBytes read = some data ∧
      ∀ name, name ∈ set ↔ ∃ line ∈ scan data, f.normalize line = some name := by
  cases read with
  | error => cases h
  | ok data =>
    rw [Feed.fetch] at h
    split_ifs at h with hcap
    cases h
    refine ⟨data, if_pos (not_lt.mp hcap), fun name => ?_⟩
    rw [Map.mem_foldl_insert, ← List.mem_filterMap]
    simp

theorem setsEqual_iff {a b : Map Str Bool} (ha : IsSet a) (hb : IsSet b) :
    setsEqual a b = true ↔ ∀ k, a.lookup k = b.lookup k := by
  rw [setsEqual, Bool.and_eq_true, beq_iff_eq, List.all_eq_true]
  constructor
  · rintro ⟨hlen, hall⟩ k
    have hsub : ∀ k ∈ a, k ∈ b := by
      intro k hk
      rcases hb : b.lookup k with _ | v
      · have := hall k hk
        rw [hb] at this
        cases this
      · exact Map.mem_of_lookup hb
    by_cases hk : k ∈ a
    · rw [ha.lookup_eq hk, hb.lookup_eq (hsub k hk)]
    · have hk' : k ∉ b := fun h => hk ((Map.mem_iff_of_length_le hsub hlen.ge).mpr h)
      rw [AList.lookup_eq_none.mpr hk, AList.lookup_eq_none.mpr hk']
  · intro h
    refine ⟨Map.length_eq_of_mem_iff fun k => ?_, fun k hk => ?_⟩
    · rw [← AList.lookup_isSome, h k, AList.lookup_isSome]
    · rw [← h k, ha.lookup_eq hk]
      rfl

theorem poll_cases (f : Feed) (read : Except Str Str) :
    (∃ err, f.fetch read = .error err ∧ f.poll read = (f, false)) ∨
      ∃ set, f.fetch read = .ok set ∧
        (setsEqual f.current set = true ∧ f.poll read = (f, false) ∨
          setsEqual f.current set = false ∧ f.poll read = ({ f with current := set }, true)) := by
  rcases hf : f.fetch read with err | set
  · exact Or.inl ⟨err, rfl, by rw [Feed.poll, hf]⟩
  · refine Or.inr ⟨set, rfl, ?_⟩
    cases heq : setsEqual f.current set with
    | true => exact Or.inl ⟨rfl, by simp only [Feed.poll, hf, heq, if_pos]⟩
    | false => exact Or.inr ⟨rfl, by simp only [Feed.poll, hf, heq, Bool.false_eq_true, if_false]⟩

/-- The last feed that could be read. -/
def lastFeed (maxBytes : ℕ) (reads : List (Except Str Str)) : Option Str :=
  (reads.filterMap (readable maxBytes)).getLast?

theorem lastFeed_concat (maxBytes : ℕ) (reads : List (Except Str Str)) (read : Except Str Str) :
    lastFeed maxBytes (reads ++ [read]) =
      (readable maxBytes read).or (lastFeed maxBytes reads) := by
  unfold lastFeed
  rw [List.filterMap_append, List.filterMap_cons]
  rcases readable maxBytes read with _ | data
  · simp
  · simp

/-- The names are the labels of the lines of the last feed that could be read. -/
structure Published (f₀ : Feed) (reads : List (Except Str Str)) (f : Feed) : Prop where
  suffixes : f.suffixes = f₀.suffixes
  maxBytes : f.maxBytes = f₀.maxBytes
  isSet : IsSet f.current
  mem_iff : ∀ name, name ∈ f.current ↔
    ∃ data ∈ lastFeed f₀.maxBytes reads, ∃ line ∈ scan data, f₀.normalize line = some name

theorem Published.poll {f₀ f : Feed} {reads : List (Except Str Str)} (h : Published f₀ reads f)
    (read : Except Str Str) : Published f₀ (reads ++ [read]) (f.poll read).1 := by
  have hnorm : f.normalize = f₀.normalize := by
    funext line
    rw [Feed.normalize, Feed.normalize, h.suffixes]
  rcases poll_cases f read with ⟨err, hf, hpoll⟩ | ⟨set, hf, hcases⟩
  · have hnone := readable_of_fetch_error hf
    rw [h.maxBytes] at hnone
    rw [hpoll]
    refine ⟨h.suffixes, h.maxBytes, h.isSet, ?_⟩
    rw [lastFeed_concat, hnone]
    exact h.mem_iff
  · obtain ⟨data, hdata, hset⟩ := readable_of_fetch_ok hf
    rw [h.maxBytes] at hdata
    rw [hnorm] at hset
    have hlast : ∀ name, name ∈ set ↔ ∃ d ∈ lastFeed f₀.maxBytes (reads ++ [read]),
        ∃ line ∈ scan d, f₀.normalize line = some name := by
      intro name
      rw [hset, lastFeed_concat, hdata]
      simp
    rcases hcases with ⟨heq, hpoll⟩ | ⟨-, hpoll⟩
    · -- the set that is there has the same names
      rw [hpoll]
      refine ⟨h.suffixes, h.maxBytes, h.isSet, fun name => ?_⟩
      rw [← hlast, ← AList.lookup_isSome, ← AList.lookup_isSome,
        (setsEqual_iff h.isSet (isSet_fetch hf)).mp heq]
    · rw [hpoll]
      exact ⟨h.suffixes, h.maxBytes, isSet_fetch hf, hlast⟩

theorem poll_changed_iff {f₀ f : Feed} {reads : List (Except Str Str)} (h : Published f₀ reads f)
    (read : Except Str Str) :
    (f.poll read).2 = true ↔
      ∃ name, (f.poll read).1.current.lookup name ≠ f.current.lookup name := by
  rcases poll_cases f read with ⟨err, -, hpoll⟩ | ⟨set, hf, ⟨-, hpoll⟩ | ⟨hne, hpoll⟩⟩
  · simp [hpoll]
  · simp [hpoll]
  · have hiff := setsEqual_iff h.isSet (isSet_fetch hf)
    rw [hne, Bool.false_eq_true, false_iff, not_forall] at hiff
    obtain ⟨name, hname⟩ := hiff
    rw [hpoll]
    exact ⟨fun _ => ⟨name, Ne.symm hname⟩, fun _ => rfl⟩

end SplitDNS.Vhost
