import SplitDNS.Mirror.Snapshot
import SplitDNS.Revzone

/-! # Configured and detected reverse zones

The reverse zones of a snapshot are the configured ones and those of the detected
prefixes that none of them contains. Together they cover what either covers, and
a name under a configured zone is answered from a configured zone.
-/

namespace SplitDNS.Resolver

open Go Go.Netip Go.Strings Dns Model Config Revzone Mirror

section Explicit

variable {z : ZonesConfig} {e : Str}

theorem mem_foldl_explicit {l : List Str} :
    e ∈ l.foldl (fun explicit z =>
        if z ≠ [] && !explicit.contains z then explicit ++ [z] else explicit) [] ↔
      e ∈ l ∧ e ≠ [] := by
  induction l using List.reverseRecOn with
  | nil => simp
  | append_singleton l z ih =>
    rw [List.foldl_append, List.foldl_cons, List.foldl_nil]
    split_ifs with hnew
    · rw [Bool.and_eq_true, decide_eq_true_eq] at hnew
      rw [List.mem_append, ih, List.mem_singleton, List.mem_append, List.mem_singleton]
      constructor
      · rintro (h | rfl)
        · exact ⟨Or.inl h.1, h.2⟩
        · exact ⟨Or.inr rfl, hnew.1⟩
      · rintro ⟨h | rfl, hne⟩
        · exact Or.inl ⟨h, hne⟩
        · exact Or.inr rfl
    · rw [ih, List.mem_append, List.mem_singleton]
      refine ⟨fun h => ⟨Or.inl h.1, h.2⟩, ?_⟩
      rintro ⟨h | rfl, hne⟩
      · exact ⟨h, hne⟩
      · rw [Bool.and_eq_true, decide_eq_true_eq, Bool.not_eq_true', ← Bool.not_eq_true,
          List.contains_iff_mem, not_and_not_right] at hnew
        exact ih.mp (hnew hne)

theorem dot_suffix_of_mem_explicit (h : e ∈ z.explicit) : e ≠ [] ∧ ['.'] <:+ e := by
  obtain ⟨hmem, hne⟩ := mem_foldl_explicit.mp h
  obtain ⟨raw, -, rfl⟩ := List.mem_map.mp hmem
  refine ⟨hne, ?_⟩
  unfold Config.ensureDot at hne ⊢
  split_ifs at hne ⊢ with hdot
  · rw [Bool.or_eq_true, decide_eq_true_eq, hasSuffix, decide_eq_true_eq] at hdot
    exact hdot.resolve_left hne
  · exact List.suffix_append _ _

end Explicit

theorem contains_iff {parent child : Str} :
    Revzone.contains parent child = true ↔ AtOrBelow child parent := by
  rw [Revzone.contains, Bool.or_eq_true, decide_eq_true_eq, hasSuffix, decide_eq_true_eq, AtOrBelow,
    eq_comm]

/-- The scope that the configuration names, none if it is not set. -/
def scopeOf (c : Config) : Option Scope :=
  validScope (if c.zones.reverseDetect = [] then "off".toList else c.zones.reverseDetect)

section Resolved

variable {quote : Str → Str} {prefixes : Scope → Except Str (List Prefix)} {cfg : Config}
  {scope : Scope} {ps : List Prefix}

theorem exists_resolveReverseZones (hoff : prefixes .scopeOff = .ok [])
    (hscope : scopeOf cfg = some scope) (hps : prefixes scope = .ok ps) :
    ∃ zones, cfg.resolveReverseZones quote (fun s => (prefixes s).map derive) =
        .ok (zones, (derive ps).2) ∧
      ∀ z, z ∈ zones ↔ z ∈ cfg.zones.explicit ∨
        (∃ p ∈ ps, zoneFor p = .ok z) ∧ ∀ e ∈ cfg.zones.explicit, ¬ AtOrBelow z e := by
  unfold scopeOf at hscope
  unfold Config.resolveReverseZones
  dsimp only
  rw [hscope]
  by_cases h : scope = .scopeOff
  · subst h
    obtain rfl : [] = ps := Except.ok.inj (hoff.symm.trans hps)
    refine ⟨_, rfl, fun z => ?_⟩
    rw [List.mem_insertionSort]
    simp
  · have hzones : ∀ z, z ∈ (cfg.zones.explicit ++ (derive ps).1.filter fun z =>
        !cfg.zones.explicit.any (Revzone.contains · z)).dedup.insertionSort (· ≤ ·) ↔
        z ∈ cfg.zones.explicit ∨
          (∃ p ∈ ps, zoneFor p = .ok z) ∧ ∀ e ∈ cfg.zones.explicit, ¬ AtOrBelow z e := by
      intro z
      rw [List.mem_insertionSort, List.mem_dedup, List.mem_append, List.mem_filter, mem_derive]
      simp [contains_iff]
    refine ⟨_, ?_, hzones⟩
    cases scope with
    | scopeOff => exact absurd rfl h
    | _ => simp only [hps, Except.map]

theorem isSuffixLabel_zoneFor_iff {p : Prefix} {z name : Str} {a : Addr} (hp : Plain p)
    (hz : zoneFor p = .ok z) (hname : reverseAddr a.string = some name) :
    isSuffixLabel name z = true ↔ p.contains a.unmap = true := by
  rcases zoneFor_cases hp with ⟨-, z', hz', hunder⟩ | ⟨-, e, he⟩
  · obtain rfl : z = z' := Except.ok.inj (hz.symm.trans hz')
    rw [← hunder a.unmap (Addr.is4In6_unmap a),
      under_of_some (reverseAddr_unmap hname), isSuffixLabel_iff]
  · rw [hz] at he
    cases he

theorem mem_reverseZones {zones : List Str} {apex : Str} :
    apex ∈ reverseZones zones ↔ ∃ z ∈ zones, fqdn z = apex := by
  unfold reverseZones
  induction zones using List.reverseRecOn with
  | nil => simp
  | append_singleton zones z ih =>
    rw [List.foldl_append, List.foldl_cons, List.foldl_nil, AList.mem_insert, ih]
    constructor
    · rintro (rfl | ⟨z', hz', rfl⟩)
      · exact ⟨z, by simp, rfl⟩
      · exact ⟨z', by simp [hz'], rfl⟩
    · rintro ⟨z', hz', rfl⟩
      rcases List.mem_append.mp hz' with hz' | hz'
      · exact Or.inr ⟨z', hz', rfl⟩
      · rw [List.mem_singleton.mp hz']
        exact Or.inl rfl

theorem fqdn_of_arpa {z : Str} (h : "arpa.".toList <:+ z) : fqdn z = z := by
  obtain ⟨r, rfl⟩ := h
  refine if_pos ?_
  simp [isFqdn]

theorem not_atOrBelow_of_arpa {z e : Str} (h : "arpa.".toList <:+ z) (he : ['.'] <:+ e) :
    ¬ AtOrBelow z (e ++ ['.']) := by
  intro hbelow
  obtain ⟨r, rfl⟩ := he
  have hdots : ['.', '.'] <:+ z := by
    refine List.IsSuffix.trans ⟨r, ?_⟩ hbelow.suffix
    simp
  have htail : ['a', '.'] <:+ z := List.IsSuffix.trans ⟨['a', 'r', 'p'], rfl⟩ h
  have heq := List.IsSuffix.eq_of_length (List.suffix_of_suffix_length_le hdots htail le_rfl) rfl
  exact absurd heq (by decide)

theorem not_atOrBelow_fqdn {z e : Str} {zones : ZonesConfig} (h : "arpa.".toList <:+ z)
    (he : e ∈ zones.explicit) (hnot : ¬ AtOrBelow z e) : ¬ AtOrBelow z (fqdn e) := by
  unfold fqdn
  split_ifs
  · exact hnot
  · exact not_atOrBelow_of_arpa h (dot_suffix_of_mem_explicit he).2

/-- Of two zones above a name the longer one is below the other, so that the longest zone above a
name under a configured zone is a configured one. -/
theorem longestReverseZone_explicit {zones : List Str} {z : ZonesConfig} {name e : Str}
    (hmem : ∀ d ∈ zones, d ∈ z.explicit ∨
      "arpa.".toList <:+ d ∧ ∀ e ∈ z.explicit, ¬ AtOrBelow d e)
    (hexp : ∀ e ∈ z.explicit, e ∈ zones) (he : e ∈ z.explicit)
    (hbelow : AtOrBelow name (fqdn e)) :
    ∃ e' ∈ z.explicit, longestReverseZone name (reverseZones zones) =
      some ⟨fqdn e', synthSOA (fqdn e')⟩ := by
  have hkey : fqdn e ∈ (reverseZones zones).keys :=
    AList.mem_keys.mp (mem_reverseZones.mpr ⟨e, hexp e he, rfl⟩)
  have hlen := length_le_longestSuffix hkey hbelow
  have hpos : 0 < (fqdn e).length := (dot_suffix_fqdn e).length_le
  have hne : longestSuffix name (reverseZones zones).keys ≠ [] :=
    List.ne_nil_of_length_pos (hpos.trans_le hlen)
  obtain ⟨hbest, habove⟩ := (longestSuffix_cases name (reverseZones zones).keys).resolve_left hne
  rw [longestReverseZone, if_neg hne]
  generalize longestSuffix name (reverseZones zones).keys = best at *
  have hbest := AList.mem_keys.mpr hbest
  obtain ⟨rz, hrz⟩ := Option.isSome_iff_exists.mp (AList.lookup_isSome.mpr hbest)
  obtain ⟨rfl, -⟩ := lookup_reverseZones zones hrz
  obtain ⟨d, hd, rfl⟩ := mem_reverseZones.mp hbest
  rcases hmem d hd with hexplicit | ⟨harpa, hnot⟩
  · exact ⟨d, hexplicit, hrz⟩
  · exfalso
    rw [fqdn_of_arpa harpa] at habove hlen
    refine not_atOrBelow_fqdn harpa he (hnot e he) ?_
    rcases AtOrBelow.total habove hbelow with h | h
    · exact h
    · exact Or.inl (List.IsSuffix.eq_of_length_le h.suffix hlen)

theorem covered_iff {zones explicit : List Str} (hplain : ∀ p ∈ ps, Plain p)
    (hmem : ∀ z, z ∈ zones ↔ z ∈ explicit ∨
      (∃ p ∈ ps, zoneFor p = .ok z) ∧ ∀ e ∈ explicit, ¬ AtOrBelow z e)
    {a : Addr} {name : Str} (hname : reverseAddr a.string = some name) :
    (∃ z ∈ zones, isSuffixLabel name z = true) ↔
      (∃ e ∈ explicit, isSuffixLabel name e = true) ∨
        ∃ p ∈ ps, labelBits p ∣ p.bits ∧ p.contains a.unmap = true := by
  constructor
  · rintro ⟨z, hz, hbelow⟩
    rcases (hmem z).mp hz with he | ⟨⟨p, hp, hzone⟩, -⟩
    · exact Or.inl ⟨z, he, hbelow⟩
    · have hin := (isSuffixLabel_zoneFor_iff (hplain p hp) hzone hname).mp hbelow
      exact Or.inr ⟨p, hp, dvd_of_zoneFor (hplain p hp) hzone, hin⟩
  · rintro (⟨e, he, hbelow⟩ | ⟨p, hp, hdvd, hin⟩)
    · exact ⟨e, (hmem e).mpr (Or.inl he), hbelow⟩
    · obtain ⟨z, hzone⟩ := exists_zoneFor (hplain p hp) hdvd
      have hbelow := (isSuffixLabel_zoneFor_iff (hplain p hp) hzone hname).mpr hin
      by_cases hcov : ∃ e ∈ explicit, AtOrBelow z e
      · -- the zone was dropped for a configured one above it
        obtain ⟨e, he, hze⟩ := hcov
        refine ⟨e, (hmem e).mpr (Or.inl he), isSuffixLabel_iff.mpr ?_⟩
        exact (isSuffixLabel_iff.mp hbelow).trans hze
      · refine ⟨z, (hmem z).mpr (Or.inr ⟨⟨p, hp, hzone⟩, fun e he h => hcov ⟨e, he, h⟩⟩), hbelow⟩

theorem map_masked_eq {ps : List Prefix} (h : ∀ p ∈ ps, p.masked = p) : ps.map Prefix.masked = ps :=
  (List.map_congr_left h).trans (List.map_id _)

/-- The zones returned cover what the configured zones and the aligned prefixes cover, the prefixes
refused are the other ones, and a name under a configured zone, qualified as in the snapshot, is
answered from a configured zone. -/
theorem resolveReverseZones_exact (quote : Str → Str)
    (prefixes : Scope → Except Str (List Prefix)) (cfg : Config) (scope : Scope)
    (ps : List Prefix) (hoff : prefixes .scopeOff = .ok []) (hscope : scopeOf cfg = some scope)
    (hps : prefixes scope = .ok ps) (hplain : ∀ p ∈ ps, Plain p) :
    ∃ zones refused,
      cfg.resolveReverseZones quote (fun s => (prefixes s).map derive) = .ok (zones, refused) ∧
      (∀ (a : Addr) (name : Str), reverseAddr a.string = some name →
        ((∃ z ∈ zones, isSuffixLabel name z = true) ↔
          (∃ e ∈ cfg.zones.explicit, isSuffixLabel name e = true) ∨
            ∃ p ∈ ps, labelBits p ∣ p.bits ∧ p.contains a.unmap = true)) ∧
      refused = (ps.filter fun p => ¬ labelBits p ∣ p.bits).map Prefix.masked ∧
      ((∀ p ∈ ps, p.masked = p) → refused = ps.filter fun p => ¬ labelBits p ∣ p.bits) ∧
      ∀ name, ∀ e ∈ cfg.zones.explicit, isSuffixLabel name (fqdn e) = true →
        ∃ e' ∈ cfg.zones.explicit, longestReverseZone name (reverseZones zones) =
          some ⟨fqdn e', synthSOA (fqdn e')⟩ := by
  obtain ⟨zones, hres, hmem⟩ :=
    @exists_resolveReverseZones quote prefixes cfg scope ps hoff hscope hps
  have hrefused := unaligned_derive hplain
  refine ⟨zones, _, hres, fun a name hname => covered_iff hplain hmem hname, hrefused,
    fun hmasked => ?_, fun name e he hbelow => ?_⟩
  · rw [hrefused]
    exact map_masked_eq fun p hp => hmasked p (List.mem_of_mem_filter hp)
  · refine longestReverseZone_explicit (fun z hz => ?_) (fun e he => (hmem e).mpr (Or.inl he)) he
      (isSuffixLabel_iff.mp hbelow)
    rcases (hmem z).mp hz with he | ⟨⟨p, -, hzone⟩, hnot⟩
    · exact Or.inl he
    · exact Or.inr ⟨arpa_suffix_of_zoneFor hzone, hnot⟩

/-- The prefixes of the interfaces are masked and no IPv4-mapped ones, so what is refused of them
are the unaligned ones as they are. -/
theorem resolveReverseZones_detected (quote : Str → Str) (addrs : List NetAddr) (cfg : Config)
    (scope : Scope) (hscope : scopeOf cfg = some scope)
    (hvalid : ∀ p ∈ classifyAndFilter addrs scope, p.isValid = true) :
    ∃ zones, cfg.resolveReverseZones quote (fun s => (detectPrefixes (.ok addrs) s).map derive) =
        .ok (zones, (classifyAndFilter addrs scope).filter fun p => ¬ labelBits p ∣ p.bits) ∧
      ∀ (a : Addr) (name : Str), reverseAddr a.string = some name →
        ((∃ z ∈ zones, isSuffixLabel name z = true) ↔
          (∃ e ∈ cfg.zones.explicit, isSuffixLabel name e = true) ∨
            ∃ p ∈ classifyAndFilter addrs scope,
              labelBits p ∣ p.bits ∧ p.contains a.unmap = true) := by
  have hplain : ∀ p ∈ classifyAndFilter addrs scope, Plain p := fun p hp =>
    (plain_of_mem_classifyAndFilter hp).2 (hvalid p hp)
  obtain ⟨zones, hres, hmem⟩ :=
    @exists_resolveReverseZones quote (detectPrefixes (.ok addrs)) cfg scope _ rfl hscope rfl
  refine ⟨zones, ?_, fun a name hname => covered_iff hplain hmem hname⟩
  rw [hres, unaligned_derive hplain, map_masked_eq fun p hp =>
    (plain_of_mem_classifyAndFilter (List.mem_of_mem_filter hp)).1]

/-- A configured zone, and interfaces with one prefix under it, one on its own, one unaligned. -/
def homeConfig : Config where
  zones := { reverse := ["168.192.in-addr.arpa".toList], reverseDetect := "all".toList }

def homeAddrs : List NetAddr :=
  [.ipNet [192, 168, 1, 1] 24, .ipNet [10, 0, 0, 1] 8, .ipNet [172, 16, 0, 1] 12]

theorem resolveReverseZones_exact_home :
    ∃ zones refused,
      homeConfig.resolveReverseZones id (fun s => (detectPrefixes (.ok homeAddrs) s).map derive) =
        .ok (zones, refused) ∧
      refused = [⟨.v4 0xac100000, 12⟩] ∧
      ∃ e ∈ homeConfig.zones.explicit,
        longestReverseZone "7.1.168.192.in-addr.arpa.".toList (reverseZones zones) =
          some ⟨fqdn e, synthSOA (fqdn e)⟩ := by
  have hprefixes : classifyAndFilter homeAddrs .scopeAll =
      [⟨.v4 0x0a000000, 8⟩, ⟨.v4 0xac100000, 12⟩, ⟨.v4 0xc0a80100, 24⟩] := by decide +kernel
  have hplain : ∀ p ∈ classifyAndFilter homeAddrs .scopeAll, Plain p := by
    intro p hp
    refine (plain_of_mem_classifyAndFilter hp).2 ?_
    rw [hprefixes] at hp
    exact (by decide : ∀ p ∈ ([⟨.v4 0x0a000000, 8⟩, ⟨.v4 0xac100000, 12⟩,
      ⟨.v4 0xc0a80100, 24⟩] : List Prefix), p.isValid = true) p hp
  obtain ⟨zones, refused, hres, -, hrefused, -, hselect⟩ := resolveReverseZones_exact id
    (detectPrefixes (.ok homeAddrs)) homeConfig .scopeAll (classifyAndFilter homeAddrs .scopeAll)
    rfl (by decide) rfl hplain
  refine ⟨zones, refused, hres, ?_, ?_⟩
  · rw [hrefused, hprefixes]
    decide
  · exact hselect _ "168.192.in-addr.arpa.".toList (by decide) (by decide)

end Resolved

end SplitDNS.Resolver
