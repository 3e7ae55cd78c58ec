import SplitDNS.MDNS.Parse

/-! # The order of the records in a packet

The records of a packet are gathered host by host, so hosts and addresses do not
depend on their order. The lifetime of a host does: a repeated address is skipped
with its lifetime, and a lifetime of zero is taken for one that is not set yet.
-/

namespace SplitDNS.MDNS

open Go Go.Netip Go.Strings Dns

/-- The host, address and lifetime that an accepted record adds. -/
def accepted (r : Record) : Option (Str × Addr × UInt32) :=
  (recordAddr r.data).bind fun addr =>
    if canonHost r.hdr.name = [] || !addr.isValid || addr.unmap.isLinkLocalUnicast then none
    else some (canonHost r.hdr.name, addr.unmap, r.hdr.ttl)

section Gathering

variable {h : Str} {a : Announcement} {found : List Announcement} {l l' : List (Addr × UInt32)}
  {x : Addr} {t : UInt32}

/-- The announcement of a host from its records in their order. -/
def gather (h : Str) (l : List (Addr × UInt32)) : Announcement :=
  l.foldl (fun a p => a.add p.1 p.2) ⟨h, [], 0⟩

theorem gather_concat (h : Str) (l : List (Addr × UInt32)) (p : Addr × UInt32) :
    gather h (l ++ [p]) = (gather h l).add p.1 p.2 := by
  rw [gather, List.foldl_append]
  rfl

theorem add_host (a : Announcement) (x : Addr) (t : UInt32) : (a.add x t).host = a.host := by
  unfold Announcement.add
  split_ifs <;> rfl

theorem mem_addrs_add {y : Addr} : y ∈ (a.add x t).addrs ↔ y ∈ a.addrs ∨ y = x := by
  unfold Announcement.add
  by_cases hx : x ∈ a.addrs
  · rw [if_pos hx]
    exact ⟨Or.inl, fun h => h.elim id fun h => h ▸ hx⟩
  · simp [hx]

theorem gather_host (h : Str) (l : List (Addr × UInt32)) : (gather h l).host = h := by
  induction l using List.reverseRecOn with
  | nil => rfl
  | append_singleton l p ih => rw [gather_concat, add_host, ih]

theorem mem_addrs_gather : x ∈ (gather h l).addrs ↔ ∃ p ∈ l, p.1 = x := by
  induction l using List.reverseRecOn with
  | nil => simp [gather]
  | append_singleton l p ih =>
    rw [gather_concat, mem_addrs_add, ih]
    simp [or_and_right, exists_or, eq_comm]

theorem ttl_gather_mem (hl : l ≠ []) : ∃ p ∈ l, p.2 = (gather h l).ttl := by
  induction l using List.reverseRecOn with
  | nil => exact absurd rfl hl
  | append_singleton l p ih =>
    rw [gather_concat, Announcement.add]
    by_cases hnil : l = []
    · subst hnil
      exact ⟨p, by simp, by simp [gather]⟩
    · obtain ⟨p', hp', httl⟩ := ih hnil
      split_ifs with hx hlt
      · exact ⟨p', List.mem_append_left _ hp', httl⟩
      · exact ⟨p, by simp, rfl⟩
      · exact ⟨p', List.mem_append_left _ hp', httl⟩

theorem gather_append_of_known (hknown : ∀ p ∈ l', ∃ p' ∈ l, p'.1 = p.1) :
    gather h (l ++ l') = gather h l := by
  induction l' using List.reverseRecOn with
  | nil => rw [List.append_nil]
  | append_singleton l' p ih =>
    have hmem : p.1 ∈ (gather h l).addrs := mem_addrs_gather.mpr (hknown p (by simp))
    rw [← List.append_assoc, gather_concat, ih fun p hp => hknown p (List.mem_append_left _ hp),
      Announcement.add, if_pos hmem]

theorem ttl_gather_le (hpos : ∀ p ∈ l, p.2 ≠ 0) (hx : ∀ p ∈ l, p.1 = x → p.2 ≤ t)
    (hmem : x ∈ (gather h l).addrs) : (gather h l).ttl ≤ t := by
  induction l using List.reverseRecOn with
  | nil => simp [gather] at hmem
  | append_singleton l p ih =>
    rw [gather_concat] at hmem ⊢
    have ih := ih (fun p hp => hpos p (List.mem_append_left _ hp)) fun p hp =>
      hx p (List.mem_append_left _ hp)
    rw [Announcement.add]
    by_cases hknown : p.1 ∈ (gather h l).addrs
    · rw [if_pos hknown]
      rw [Announcement.add, if_pos hknown] at hmem
      exact ih hmem
    · rw [if_neg hknown]
      rcases mem_addrs_add.mp hmem with hold | hnew
      · -- the address was there, so the lifetime is set and can only fall
        have hne : l ≠ [] := by
          rintro rfl
          simp [gather] at hold
        obtain ⟨p', hp', httl⟩ := @ttl_gather_mem h l hne
        have hset : (gather h l).ttl ≠ 0 := httl ▸ hpos p' (List.mem_append_left _ hp')
        have hle := ih hold
        dsimp only
        split_ifs with hlt
        · simp only [hset, decide_false, Bool.or_false, decide_eq_true_eq] at hlt
          exact UInt32.le_trans (UInt32.le_of_lt hlt) hle
        · exact hle
      · have hle := hx p (by simp) hnew.symm
        dsimp only
        split_ifs with hlt
        · exact hle
        · simp only [Bool.or_eq_true, decide_eq_true_eq, not_or, UInt32.not_lt] at hlt
          exact UInt32.le_trans hlt.1 hle

def LeastTTL (t : UInt32) (l : List (Addr × UInt32)) : Prop :=
  (∃ p ∈ l, p.2 = t) ∧ ∀ p ∈ l, t ≤ p.2

/-- One address is announced with the least lifetime only, and there is no lifetime of zero among
others. -/
structure Steady (l : List (Addr × UInt32)) : Prop where
  zero : (∃ p ∈ l, p.2 = 0) → ∀ p ∈ l, p.2 = 0
  least : ∃ p₀ ∈ l, ∀ p ∈ l, p.1 = p₀.1 → ∀ p' ∈ l, p.2 ≤ p'.2

theorem Steady.of_perm (hs : Steady l) (hperm : l'.Perm l) : Steady l' := by
  constructor
  · rintro ⟨p, hp, hzero⟩ p' hp'
    exact hs.zero ⟨p, hperm.mem_iff.mp hp, hzero⟩ p' (hperm.mem_iff.mp hp')
  · obtain ⟨p₀, hp₀, hleast⟩ := hs.least
    refine ⟨p₀, hperm.mem_iff.mpr hp₀, fun p hp hx p' hp' => ?_⟩
    exact hleast p (hperm.mem_iff.mp hp) hx p' (hperm.mem_iff.mp hp')

theorem Steady.leastTTL_gather (hs : Steady l) : LeastTTL (gather h l).ttl l := by
  obtain ⟨p₀, hp₀, hleast⟩ := hs.least
  obtain ⟨p₁, hp₁, httl⟩ := @ttl_gather_mem h l (List.ne_nil_of_mem hp₀)
  refine ⟨⟨p₁, hp₁, httl⟩, fun p hp => ?_⟩
  by_cases hzero : ∃ p ∈ l, p.2 = 0
  · rw [← httl, hs.zero hzero p₁ hp₁]
    exact UInt32.zero_le
  · have hmem : p₀.1 ∈ (gather h l).addrs := mem_addrs_gather.mpr ⟨p₀, hp₀, rfl⟩
    exact ttl_gather_le (fun p hp h0 => hzero ⟨p, hp, h0⟩) (fun p' hp' hx => hleast p' hp' hx p hp)
      hmem

end Gathering

section Arranging

variable {h : Str} {l : List (Addr × UInt32)} {y : Addr} {s : UInt32}

theorem ttl_gather_ne_zero {pre post : List (Addr × UInt32)} (hs : s ≠ 0)
    (hpre : ∀ p ∈ pre, p.1 ≠ y) (hpost : ∀ p ∈ post, p.1 = y) :
    (gather h (pre ++ (y, s) :: post)).ttl ≠ 0 := by
  have hcons : pre ++ (y, s) :: post = (pre ++ [(y, s)]) ++ post := by simp
  have hnew : y ∉ (gather h pre).addrs := by
    rw [mem_addrs_gather]
    rintro ⟨p, hp, hy⟩
    exact hpre p hp hy
  rw [hcons, gather_append_of_known fun p hp => ⟨(y, s), by simp, (hpost p hp).symm⟩, gather_concat,
    Announcement.add, if_neg hnew]
  dsimp only
  split_ifs with hlt
  · exact hs
  · simp only [Bool.or_eq_true, decide_eq_true_eq, not_or] at hlt
    exact hlt.2

theorem ttl_gather_partition {p : Addr × UInt32 → Bool} (hl : l ≠ [])
    (hknown : ∀ r ∈ l, ∃ r' ∈ l, r'.1 = r.1 ∧ p r' = true) :
    ∃ r ∈ l, p r = true ∧ r.2 = (gather h (l.filter p ++ l.filter (!p ·))).ttl := by
  have hfirst : l.filter p ≠ [] := by
    obtain ⟨r, hr⟩ := List.exists_mem_of_ne_nil l hl
    obtain ⟨r', hr', -, hp⟩ := hknown r hr
    exact List.ne_nil_of_mem (List.mem_filter.mpr ⟨hr', hp⟩)
  have hsecond : ∀ r ∈ l.filter (!p ·), ∃ r' ∈ l.filter p, r'.1 = r.1 := by
    intro r hr
    obtain ⟨r', hr', hx, hp⟩ := hknown r (List.mem_of_mem_filter hr)
    exact ⟨r', List.mem_filter.mpr ⟨hr', hp⟩, hx⟩
  rw [gather_append_of_known hsecond]
  obtain ⟨r, hr, httl⟩ := @ttl_gather_mem h _ hfirst
  exact ⟨r, (List.mem_filter.mp hr).1, (List.mem_filter.mp hr).2, httl⟩

end Arranging

section Packets

variable {h : Str} {a : Announcement} {rrs rrs' : List Dns.RR} {m m' : Msg}

/-- The address and lifetime that a record adds to a host. -/
def offer (h : Str) (rr : Dns.RR) : Option (Addr × UInt32) :=
  (rr.bind accepted).bind fun p => if p.1 = h then some p.2 else none

/-- The addresses and lifetimes of the accepted records of a host, in their order. -/
def acceptedOf (m : Msg) (h : Str) : List (Addr × UInt32) :=
  if m.response then (m.answer ++ m.extra).filterMap (offer h) else []

def announce (found : List Announcement) (r : Record) : List Announcement :=
  match recordAddr r.data with
  | some addr => addTo found (canonHost r.hdr.name) addr r.hdr.ttl
  | none => found

theorem announce_eq (found : List Announcement) (r : Record) :
    announce found r = (accepted r).elim found fun p =>
      if found.any (·.host = p.1) then
        found.map fun a => if a.host = p.1 then a.add p.2.1 p.2.2 else a
      else found ++ [gather p.1 [p.2]] := by
  unfold announce accepted
  rcases recordAddr r.data with _ | addr
  · rfl
  dsimp only [addTo, Option.bind_some]
  by_cases hskip : (decide (canonHost r.hdr.name = []) || !addr.isValid) = true
  · rw [if_pos hskip, hskip, Bool.true_or, if_pos rfl]
    rfl
  · rw [if_neg hskip, Bool.eq_false_iff.mpr hskip, Bool.false_or]
    by_cases hlocal : addr.unmap.isLinkLocalUnicast = true
    · rw [if_pos hlocal, if_pos hlocal]
      rfl
    · rw [if_neg hlocal, if_neg hlocal, Option.elim_some]
      simp [gather, Announcement.add]

/-- The announcements are those of the hosts with records. -/
def Gathers (found : List Announcement) (recs : Str → List (Addr × UInt32)) : Prop :=
  ∀ a, a ∈ found ↔ recs a.host ≠ [] ∧ a = gather a.host (recs a.host)

theorem Gathers.any_iff {found : List Announcement} {recs : Str → List (Addr × UInt32)}
    (hg : Gathers found recs) : found.any (·.host = h) = true ↔ recs h ≠ [] := by
  simp only [List.any_eq_true, decide_eq_true_eq]
  constructor
  · rintro ⟨a, ha, rfl⟩
    exact ((hg a).mp ha).1
  · intro hne
    refine ⟨gather h (recs h), (hg _).mpr ?_, gather_host h _⟩
    rw [gather_host]
    exact ⟨hne, rfl⟩

theorem Gathers.map_add {found : List Announcement} {recs : Str → List (Addr × UInt32)}
    (hg : Gathers found recs) (hne : recs h ≠ []) (p : Addr × UInt32) :
    Gathers (found.map fun a => if a.host = h then a.add p.1 p.2 else a) fun h' =>
      recs h' ++ if h = h' then [p] else [] := by
  intro a
  have hsame : ∀ a₀, (if a₀.host = h then a₀.add p.1 p.2 else a₀) = a → a₀.host = a.host := by
    rintro a₀ rfl
    split_ifs
    · rw [add_host]
    · rfl
  rw [List.mem_map]
  dsimp only
  by_cases hhost : h = a.host
  · rw [if_pos hhost, gather_concat, ← hhost]
    constructor
    · rintro ⟨a₀, ha₀, heq⟩
      have hhost₀ : a₀.host = h := (hsame a₀ heq).trans hhost.symm
      rw [if_pos hhost₀, ((hg a₀).mp ha₀).2, hhost₀] at heq
      exact ⟨by simp, heq.symm⟩
    · rintro ⟨-, heq⟩
      refine ⟨gather h (recs h), (hg _).mpr ?_, ?_⟩
      · rw [gather_host]
        exact ⟨hne, rfl⟩
      · rw [gather_host, if_pos rfl, ← heq]
  · rw [if_neg hhost, List.append_nil, ← hg a]
    constructor
    · rintro ⟨a₀, ha₀, heq⟩
      rw [if_neg fun hhost₀ => hhost (hhost₀.symm.trans (hsame a₀ heq))] at heq
      exact heq ▸ ha₀
    · intro ha
      exact ⟨a, ha, if_neg (Ne.symm hhost)⟩

theorem Gathers.append {found : List Announcement} {recs : Str → List (Addr × UInt32)}
    (hg : Gathers found recs) (hnil : recs h = []) (p : Addr × UInt32) :
    Gathers (found ++ [gather h [p]]) fun h' => recs h' ++ if h = h' then [p] else [] := by
  intro a
  rw [List.mem_append, List.mem_singleton, hg a]
  dsimp only
  by_cases hhost : h = a.host
  · rw [if_pos hhost, ← hhost, hnil]
    simp
  · rw [if_neg hhost, List.append_nil]
    refine or_iff_left ?_
    rintro rfl
    exact hhost (gather_host h _).symm

theorem Gathers.announce {found : List Announcement} {recs : Str → List (Addr × UInt32)}
    (hg : Gathers found recs) (r : Record) :
    Gathers (announce found r) fun h => recs h ++ (offer h (some r)).toList := by
  rw [announce_eq]
  rcases hacc : accepted r with _ | ⟨host, p⟩
  · have hnone : ∀ h, offer h (some r) = none := fun h => by simp [offer, hacc]
    simpa only [hnone, Option.toList_none, List.append_nil, Option.elim_none] using hg
  · have hoffer : ∀ h, (offer h (some r)).toList = if host = h then [p] else [] := fun h => by
      simp only [offer, Option.bind_some, hacc]
      split_ifs <;> rfl
    simp only [Option.elim_some, hoffer]
    by_cases hknown : found.any (·.host = host) = true
    · rw [if_pos hknown]
      exact hg.map_add (hg.any_iff.mp hknown) p
    · rw [if_neg hknown]
      refine hg.append ?_ p
      by_contra hne
      exact hknown (hg.any_iff.mpr hne)

theorem gathers_foldl_announce (rrs : List Dns.RR) :
    Gathers ((rrs.filterMap id).foldl MDNS.announce []) fun h => rrs.filterMap (offer h) := by
  induction rrs using List.reverseRecOn with
  | nil => simp [Gathers]
  | append_singleton rrs rr ih =>
    have hlast : ∀ h, [rr].filterMap (offer h) = (offer h rr).toList := fun h => by
      rcases hrr : offer h rr with _ | p <;> simp [hrr]
    simp only [List.filterMap_append, List.foldl_append, hlast]
    rcases rr with _ | r
    · have hnone : ∀ h, (offer h none).toList = [] := fun h => rfl
      simp only [hnone, List.append_nil]
      exact ih
    · exact ih.announce r

theorem gathers_parsePacket (m : Msg) : Gathers (parsePacket (some m)) (acceptedOf m) := by
  unfold parsePacket announced acceptedOf
  dsimp only
  by_cases hresp : m.response = true
  · rw [if_pos hresp]
    simp only [if_pos hresp]
    exact gathers_foldl_announce (m.answer ++ m.extra)
  · simp [hresp, Gathers]

/-- The message with its address records in another order, within and across the two sections. -/
structure Permuted (m m' : Msg) : Prop where
  response : m'.response = m.response
  records : (m'.answer ++ m'.extra).Perm (m.answer ++ m.extra)

/-- The same hosts, with the same addresses as sets and the same lifetimes. -/
def SameAnnouncements (l l' : List Announcement) : Prop :=
  ∀ h t, ∀ s : Set Addr,
    (∃ a ∈ l, a.host = h ∧ a.ttl = t ∧ {x | x ∈ a.addrs} = s) ↔
      ∃ a ∈ l', a.host = h ∧ a.ttl = t ∧ {x | x ∈ a.addrs} = s

theorem Permuted.symm (hperm : Permuted m m') : Permuted m' m :=
  ⟨hperm.response.symm, hperm.records.symm⟩

theorem Permuted.acceptedOf_perm (hperm : Permuted m m') (h : Str) :
    (acceptedOf m' h).Perm (acceptedOf m h) := by
  unfold acceptedOf
  rw [hperm.response]
  split_ifs
  · exact hperm.records.filterMap _
  · exact .refl _

theorem exists_perm_filterMap_eq {α β : Type} {f : α → Option β} {l : List α} {out : List β}
    (hout : out.Perm (l.filterMap f)) : ∃ l' : List α, l'.Perm l ∧ l'.filterMap f = out := by
  induction l generalizing out with
  | nil => exact ⟨[], .refl _, (List.perm_nil.mp hout).symm⟩
  | cons a l ih =>
    rcases hf : f a with _ | b
    · rw [List.filterMap_cons_none hf] at hout
      obtain ⟨l', hperm, hl'⟩ := ih hout
      exact ⟨a :: l', hperm.cons a, by rw [List.filterMap_cons_none hf, hl']⟩
    · rw [List.filterMap_cons_some hf] at hout
      -- the element is put where its value stands
      obtain ⟨pre, post, rfl⟩ := List.append_of_mem (hout.mem_iff.mpr List.mem_cons_self)
      obtain ⟨l', hperm, hl'⟩ := ih (List.perm_middle.symm.trans hout).cons_inv
      obtain ⟨l₁, l₂, rfl, rfl, rfl⟩ := List.filterMap_eq_append_iff.mp hl'
      refine ⟨l₁ ++ a :: l₂, List.perm_middle.trans (hperm.cons a), ?_⟩
      rw [List.filterMap_append, List.filterMap_cons_some hf]

theorem exists_permuted {recs : List (Addr × UInt32)} (hperm : recs.Perm (acceptedOf m h)) :
    ∃ m', Permuted m m' ∧ acceptedOf m' h = recs := by
  unfold acceptedOf at hperm ⊢
  by_cases hresp : m.response = true
  · rw [if_pos hresp] at hperm
    obtain ⟨rrs, hrrs, hrecs⟩ := exists_perm_filterMap_eq hperm
    refine ⟨{ m with answer := rrs, extra := [] }, ⟨rfl, ?_⟩, ?_⟩
    · simpa using hrrs
    · simpa [hresp] using hrecs
  · rw [if_neg hresp] at hperm
    refine ⟨m, ⟨rfl, .refl _⟩, ?_⟩
    rw [if_neg hresp, List.perm_nil.mp hperm]

theorem LeastTTL.unique {t t' : UInt32} {l : List (Addr × UInt32)} (ht : LeastTTL t l)
    (ht' : LeastTTL t' l) : t = t' := by
  obtain ⟨⟨p, hp, rfl⟩, hle⟩ := ht
  obtain ⟨⟨p', hp', rfl⟩, hle'⟩ := ht'
  exact UInt32.le_antisymm (hle p' hp') (hle' p hp)

theorem LeastTTL.of_perm {t : UInt32} {l l' : List (Addr × UInt32)} (ht : LeastTTL t l')
    (hperm : l'.Perm l) : LeastTTL t l := by
  obtain ⟨⟨p, hp, httl⟩, hle⟩ := ht
  exact ⟨⟨p, hperm.mem_iff.mp hp, httl⟩, fun p hp => hle p (hperm.mem_iff.mpr hp)⟩

theorem steady_of_leastTTL_gather {l : List (Addr × UInt32)} (hne : l ≠ [])
    (hall : ∀ l', l'.Perm l → LeastTTL (gather h l').ttl l) : Steady l := by
  constructor
  · rintro ⟨z, hz, hz0⟩ ⟨y, s⟩ hys
    by_contra hs
    -- the other addresses first, then this record, which is taken whatever came before
    have hpre : ∀ p ∈ l.filter (·.1 ≠ y), p.1 ≠ y := by simp
    have hpost : ∀ p ∈ (l.filter fun p => !decide (p.1 ≠ y)).erase (y, s), p.1 = y := by
      intro p hp
      simpa using (List.mem_filter.mp (List.mem_of_mem_erase hp)).2
    have hmem : (y, s) ∈ l.filter fun p => !decide (p.1 ≠ y) := by simpa using hys
    have hperm := ((List.perm_cons_erase hmem).symm.append_left (l.filter (·.1 ≠ y))).trans
      (List.filter_append_perm _ l)
    have hle := (hall _ hperm).2 z hz
    rw [hz0] at hle
    exact ttl_gather_ne_zero hs hpre hpost (UInt32.le_antisymm hle UInt32.zero_le)
  · by_contra hno
    push Not at hno
    -- every address has a record that is not the least, and these come first
    let long (r : Addr × UInt32) : Bool := l.any fun r' => r'.2 < r.2
    have hknown : ∀ r ∈ l, ∃ r' ∈ l, r'.1 = r.1 ∧ long r' = true := by
      intro r hr
      obtain ⟨r', hr', hx, r'', hr'', hlt⟩ := hno r hr
      refine ⟨r', hr', hx, List.any_eq_true.mpr ⟨r'', hr'', ?_⟩⟩
      exact decide_eq_true (UInt32.not_le.mp hlt)
    obtain ⟨r, hr, hlong, httl⟩ := @ttl_gather_partition h l long hne hknown
    obtain ⟨r', hr', hlt⟩ := List.any_eq_true.mp hlong
    have hle := (hall _ (List.filter_append_perm long l)).2 r' hr'
    rw [← httl] at hle
    exact UInt32.not_le.mpr (of_decide_eq_true hlt) hle

theorem exists_announcement_of_permuted (hperm : Permuted m m')
    (hs : ∀ h, acceptedOf m h ≠ [] → Steady (acceptedOf m h)) (ha : a ∈ parsePacket (some m')) :
    ∃ a' ∈ parsePacket (some m), a'.host = a.host ∧ a'.ttl = a.ttl ∧
      {x | x ∈ a'.addrs} = {x | x ∈ a.addrs} := by
  obtain ⟨hne, heq⟩ := (gathers_parsePacket m' a).mp ha
  have hrecs := hperm.acceptedOf_perm a.host
  have hne' : acceptedOf m a.host ≠ [] := fun hnil => hne (List.perm_nil.mp (hnil ▸ hrecs))
  have hs := hs a.host hne'
  refine ⟨gather a.host (acceptedOf m a.host), (gathers_parsePacket m _).mpr ?_,
    gather_host _ _, ?_, ?_⟩
  · rw [gather_host]
    exact ⟨hne', rfl⟩
  · rw [heq, gather_host]
    exact hs.leastTTL_gather.unique ((hs.of_perm hrecs).leastTTL_gather.of_perm hrecs)
  · rw [heq, gather_host]
    ext x
    simp only [Set.mem_ofPred_eq, mem_addrs_gather, hrecs.mem_iff]

/-- The same hosts with the same addresses and the least lifetimes in every order of the records,
exactly if the records of each host are steady. -/
theorem parsePacket_permuted_iff (m : Msg) :
    ((∀ m', Permuted m m' → SameAnnouncements (parsePacket (some m')) (parsePacket (some m))) ∧
      ∀ a ∈ parsePacket (some m), LeastTTL a.ttl (acceptedOf m a.host)) ↔
    ∀ h, acceptedOf m h ≠ [] → Steady (acceptedOf m h) := by
  constructor
  · rintro ⟨hsame, hleast⟩ h hne
    refine @steady_of_leastTTL_gather h _ hne fun recs hrecs => ?_
    obtain ⟨m', hperm, rfl⟩ := exists_permuted hrecs
    have hne' : acceptedOf m' h ≠ [] := fun hnil => hne (List.perm_nil.mp (hnil ▸ hrecs.symm))
    have ha : gather h (acceptedOf m' h) ∈ parsePacket (some m') := by
      rw [gathers_parsePacket, gather_host]
      exact ⟨hne', rfl⟩
    obtain ⟨a, ha, hhost, httl, -⟩ :=
      (hsame m' hperm h _ _).mp ⟨_, ha, gather_host h _, rfl, rfl⟩
    rw [← httl, ← hhost]
    exact hleast a ha
  · intro hs
    constructor
    · intro m' hperm h t s
      have hs' : ∀ h, acceptedOf m' h ≠ [] → Steady (acceptedOf m' h) := by
        intro h hne
        have hrecs := hperm.acceptedOf_perm h
        exact (hs h fun hnil => hne (List.perm_nil.mp (hnil ▸ hrecs))).of_perm hrecs
      constructor
      · rintro ⟨a, ha, rfl, rfl, rfl⟩
        exact exists_announcement_of_permuted hperm hs ha
      · rintro ⟨a, ha, rfl, rfl, rfl⟩
        exact exists_announcement_of_permuted hperm.symm hs' ha
    · intro a ha
      obtain ⟨hne, heq⟩ := (gathers_parsePacket m a).mp ha
      have hleast := @Steady.leastTTL_gather a.host _ (hs a.host hne)
      rwa [← heq] at hleast

/-- A host withdraws one of its addresses and announces another. -/
def mixedPacket (withdrawn : Bool) : Msg :=
  let gone : Dns.RR := some ⟨⟨"nas.local.".toList, typeA, classINET, 0⟩, .a (.v4 0x0a000005#32)⟩
  let kept : Dns.RR := some ⟨⟨"nas.local.".toList, typeA, classINET, 120⟩, .a (.v4 0x0a000006#32)⟩
  { response := true, answer := if withdrawn then [gone, kept] else [kept, gone] }

/-- The withdrawal is lost if it comes first. -/
theorem parsePacket_order_dependent :
    Permuted (mixedPacket true) (mixedPacket false) ∧
    (parsePacket (some (mixedPacket true))).map (·.ttl) = [120] ∧
    (parsePacket (some (mixedPacket false))).map (·.ttl) = [0] ∧
    ¬ SameAnnouncements (parsePacket (some (mixedPacket false)))
      (parsePacket (some (mixedPacket true))) := by
  have htrue : (parsePacket (some (mixedPacket true))).map (·.ttl) = [120] := by decide
  have hfalse : (parsePacket (some (mixedPacket false))).map (·.ttl) = [0] := by decide
  refine ⟨⟨rfl, List.Perm.swap _ _ _⟩, htrue, hfalse, fun hsame => ?_⟩
  obtain ⟨a, ha, httl⟩ := List.mem_map.mp (hfalse ▸ List.mem_singleton_self 0)
  obtain ⟨a', ha', -, httl', -⟩ := (hsame _ _ _).mp ⟨a, ha, rfl, rfl, rfl⟩
  have hmem := List.mem_map_of_mem (f := (·.ttl)) ha'
  rw [htrue, httl', httl] at hmem
  exact absurd hmem (by decide)

end Packets

end SplitDNS.MDNS
