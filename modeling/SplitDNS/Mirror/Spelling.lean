import Mathlib.Data.List.Find
import SplitDNS.Mirror.Snapshot
import SplitDNS.Resolver.Routing

/-! # Spellings of a configuration

Two configurations may spell the same domain names in other letter case, or
with and without the dot at the end. Every kind of name is brought to one form
before a query is compared with it, but the keys of the stub table keep their
case, so that a key with a capital letter takes no query.
-/

namespace SplitDNS.Mirror

open Go Go.Netip Go.Strings Dns Model Config Revzone Resolver

section Names

variable {s t n : Str}

/-- A domain name without the dot at its end: white space around it, or an escape at its end,
would change what the dot is. -/
structure Bare (n : Str) : Prop where
  first : ∀ c ∈ n.head?, isSpace c = false
  last : ∃ c ∈ n.getLast?, isSpace c = false ∧ c ≠ '.' ∧ c ≠ '\\'

def Spells (s n : Str) : Prop := s = n ∨ s = n ++ ['.']

/-- The texts are equal, or names that differ in letter case and the dot at their end only. -/
def SameName (s t : Str) : Prop :=
  s = t ∨ ∃ n m, Bare n ∧ Bare m ∧ Spells s n ∧ Spells t m ∧ toLower n = toLower m

theorem Bare.exists_last (h : Bare n) :
    ∃ init c, n = init ++ [c] ∧ isSpace c = false ∧ c ≠ '.' ∧ c ≠ '\\' := by
  obtain ⟨c, hc, hlast⟩ := h.last
  obtain ⟨init, rfl⟩ := List.getLast?_eq_some_iff.mp hc
  exact ⟨init, c, rfl, hlast⟩

theorem Bare.not_suffix (h : Bare n) : ¬ ['.'] <:+ n := by
  obtain ⟨init, c, rfl, -, hdot, -⟩ := h.exists_last
  rintro ⟨r, hr⟩
  exact hdot (List.append_inj_right' hr rfl |> List.singleton_inj.mp).symm

theorem Bare.isFqdn_concat (h : Bare n) : isFqdn (n ++ ['.']) = true := by
  obtain ⟨init, c, rfl, -, -, hslash⟩ := h.exists_last
  have hc : decide (c = '\\') = false := decide_eq_false hslash
  rw [isFqdn, List.reverse_concat, List.reverse_concat]
  change decide (((c :: init.reverse).takeWhile (· = '\\')).length % 2 = 0) = true
  rw [List.takeWhile_cons, hc]
  rfl

theorem Spells.fqdn (h : Spells s n) (hn : Bare n) : fqdn s = n ++ ['.'] := by
  rcases h with rfl | rfl
  · exact fqdn_of_not_suffix hn.not_suffix
  · exact if_pos hn.isFqdn_concat

theorem Spells.trimSuffix (h : Spells s n) (hn : Bare n) : trimSuffix s ['.'] = n := by
  rcases h with rfl | rfl
  · exact trimSuffix_of_not_suffix hn.not_suffix
  · exact trimSuffix_append n ['.']

theorem Spells.trimSpace (h : Spells s n) (hn : Bare n) : trimSpace s = s := by
  obtain ⟨init, c, rfl, hc, -⟩ := hn.exists_last
  have hfirst : ∀ r, (init ++ [c] ++ r).dropWhile isSpace = init ++ [c] ++ r := by
    intro r
    rcases init with _ | ⟨d, init⟩
    · exact List.dropWhile_cons_of_neg (by simp [hc])
    · exact List.dropWhile_cons_of_neg (by simp [hn.first d rfl])
  rcases h with rfl | rfl
  · have hnil := hfirst []
    rw [List.append_nil] at hnil
    rw [Strings.trimSpace, hnil, List.rdropWhile_concat_neg _ _ _ (by simp [hc])]
  · rw [Strings.trimSpace, hfirst, List.rdropWhile_concat_neg _ _ _ (by decide)]

theorem Spells.ensureDot (h : Spells s n) (hn : Bare n) :
    Config.ensureDot (toLower s) = toLower n ++ ['.'] := by
  obtain ⟨init, c, rfl, -, hdot, -⟩ := hn.exists_last
  have hlower : ∀ r, toLower (init ++ [c] ++ r) = toLower (init ++ [c]) ++ toLower r := fun r =>
    List.map_append
  rcases h with rfl | rfl
  · refine if_neg ?_
    rw [Bool.or_eq_true, decide_eq_true_eq, hasSuffix, decide_eq_true_eq, toLower, List.map_append]
    rintro (h | ⟨r, hr⟩)
    · exact absurd (List.append_eq_nil_iff.mp h).2 (List.cons_ne_nil _ _)
    · have hc := List.singleton_inj.mp (List.append_inj_right' hr rfl)
      exact hdot ((toLower_char_eq_iff (by decide) (by decide)).mp hc.symm)
  · have hdotted : ['.'] <:+ toLower (init ++ [c]) ++ ['.'] := List.suffix_append _ _
    rw [hlower]
    exact if_pos (Bool.or_eq_true_iff.mpr (Or.inr (decide_eq_true hdotted)))

theorem toLower_eq_of_suffix (h : toLower s = s) (ht : t <:+ s) : toLower t = t := by
  obtain ⟨r, rfl⟩ := ht
  rw [toLower, List.map_append] at h
  exact List.append_inj_right' h (List.length_map _)

theorem SameName.trimSuffix (h : SameName s t) :
    toLower (Strings.trimSuffix s ['.']) = toLower (Strings.trimSuffix t ['.']) := by
  rcases h with rfl | ⟨n, m, hn, hm, hs, ht, heq⟩
  · rfl
  · rw [hs.trimSuffix hn, ht.trimSuffix hm, heq]

theorem SameName.fqdn (h : SameName s t) : toLower (Dns.fqdn s) = toLower (Dns.fqdn t) := by
  rcases h with rfl | ⟨n, m, hn, hm, hs, ht, heq⟩
  · rfl
  · rw [hs.fqdn hn, ht.fqdn hm, toLower, toLower, List.map_append, List.map_append]
    exact congrArg (· ++ ['.']) heq

theorem SameName.trimSpace (h : SameName s t) :
    Dns.fqdn (toLower (Strings.trimSpace s)) = Dns.fqdn (toLower (Strings.trimSpace t)) := by
  have hfqdn := h.fqdn
  rcases h with rfl | ⟨n, m, hn, hm, hs, ht, -⟩
  · rfl
  · rw [hs.trimSpace hn, ht.trimSpace hm, fqdn_toLower, fqdn_toLower, hfqdn]

theorem SameName.ensureDot (h : SameName s t) :
    Config.ensureDot (toLower (Strings.trimSpace s)) =
      Config.ensureDot (toLower (Strings.trimSpace t)) := by
  rcases h with rfl | ⟨n, m, hn, hm, hs, ht, heq⟩
  · rfl
  · rw [hs.trimSpace hn, ht.trimSpace hm, hs.ensureDot hn, ht.ensureDot hm, heq]

theorem map_eq_of_sameName {α : Type} {f : Str → α} {l l' : List Str}
    (h : List.Forall₂ SameName l l') (hf : ∀ {s t}, SameName s t → f s = f t) :
    l.map f = l'.map f := by
  induction h with
  | nil => rfl
  | cons hst _ ih => rw [List.map_cons, List.map_cons, hf hst, ih]

end Names

/-- The configurations agree but for the spelling of their domain names; the stub tables are
compared by their keys. -/
structure Respelled (cfg cfg' : Config) : Prop where
  localZones : List.Forall₂ SameName cfg.zones.localZones cfg'.zones.localZones
  reverse : List.Forall₂ SameName cfg.zones.reverse cfg'.zones.reverse
  reverseDetect : cfg.zones.reverseDetect = cfg'.zones.reverseDetect
  excludeZones : List.Forall₂ SameName cfg.vhost.excludeZones cfg'.vhost.excludeZones
  eligible : List.Forall₂ SameName cfg.ddns.eligible cfg'.ddns.eligible
  mdns : cfg.mdns = cfg'.mdns
  proxyV4 : cfg.vhost.proxyV4 = cfg'.vhost.proxyV4
  proxyV6 : cfg.vhost.proxyV6 = cfg'.vhost.proxyV6
  cloudflare : cfg.cloudflare = cfg'.cloudflare

/-- What a snapshot is built from beside the configuration. -/
structure Site where
  quote : Str → Str
  detected : Scope → Except Str (List Str × List Prefix)
  lister : Option ZoneLister
  tr : TunnelResolver
  ordZones : RangeOrder Str Str
  vhosts : Finset Str
  ddr : Option DDRAdvert

/-- The reverse zones that the process starts with: none if they cannot be resolved. -/
def Site.revZones (site : Site) (cfg : Config) : List Str :=
  match cfg.resolveReverseZones site.quote site.detected with
  | .ok (zones, _) => zones
  | .error _ => []

def Site.finish (site : Site) (snap : Snapshot) : Snapshot :=
  { snap with vhosts := site.vhosts, ddr := site.ddr }

def Site.build (newRR : NewRR) (site : Site) (cfg : Config) (ordStub : RangeOrder Str (List Str)) :
    Except Str Snapshot :=
  (buildSnapshot newRR site.tr cfg site.lister (site.revZones cfg) site.ordZones ordStub).map
    site.finish

/-- The snapshot without its stub zones and the suffixes exempt from the rebind filter. -/
def unrouted (snap : Snapshot) : Snapshot := { snap with stubZones := ∅, allowSuffix := [] }

def stubZones (stub : Map Str (List Str)) (ord : RangeOrder Str (List Str)) : Map Str StubZone :=
  (ord.visit stub).foldl (fun m p => m.insert (fqdn p.1) (stubZone p.1 p.2)) ∅

section Respelled

variable {newRR : NewRR} {cfg cfg' : Config} {site : Site} {ord ord' : RangeOrder Str (List Str)}

theorem Respelled.revZones (h : Respelled cfg cfg') : site.revZones cfg = site.revZones cfg' := by
  have hexplicit : cfg.zones.explicit = cfg'.zones.explicit := by
    rw [ZonesConfig.explicit, ZonesConfig.explicit,
      map_eq_of_sameName h.reverse SameName.ensureDot]
  rw [Site.revZones, Site.revZones, Config.resolveReverseZones, Config.resolveReverseZones,
    h.reverseDetect, hexplicit]

theorem Respelled.foldlM_addZone (h : Respelled cfg cfg') {tr : TunnelResolver} {l : ZoneLister}
    {ids : Map Str Str} :
    cfg.zones.localZones.foldlM (addZone newRR tr cfg l ids) ∅ =
      cfg'.zones.localZones.foldlM (addZone newRR tr cfg' l ids) ∅ := by
  have hstep : ∀ {zones s t}, SameName s t →
      addZone newRR tr cfg l ids zones s = addZone newRR tr cfg' l ids zones t := by
    intro zones s t hst
    rw [addZone, addZone, hst.trimSuffix, h.cloudflare]
  have hlocal := h.localZones
  generalize cfg.zones.localZones = l₁ at hlocal ⊢
  generalize cfg'.zones.localZones = l₂ at hlocal ⊢
  generalize (∅ : Map Str (Option Zone)) = zones
  induction hlocal generalizing zones with
  | nil => rfl
  | cons hst _ ih =>
    rw [List.foldlM_cons, List.foldlM_cons, hstep hst]
    rcases addZone newRR tr cfg' l ids zones _ with e | zones
    · rfl
    · exact ih zones

theorem Respelled.baseSnapshot (h : Respelled cfg cfg') (ord ord' : RangeOrder Str (List Str)) :
    unrouted (Mirror.baseSnapshot cfg (site.revZones cfg) ord) =
      unrouted (Mirror.baseSnapshot cfg' (site.revZones cfg') ord') := by
  have hexcluded : (cfg.vhost.excludeZones.map fun z => fqdn (toLower z)) =
      cfg'.vhost.excludeZones.map fun z => fqdn (toLower z) := by
    refine map_eq_of_sameName h.excludeZones fun hst => ?_
    rw [fqdn_toLower, fqdn_toLower, hst.fqdn]
  have heligible : (cfg.ddns.eligible.map fun e => fqdn (toLower (trimSpace e))) =
      cfg'.ddns.eligible.map fun e => fqdn (toLower (trimSpace e)) :=
    map_eq_of_sameName h.eligible SameName.trimSpace
  unfold Mirror.baseSnapshot unrouted
  dsimp only
  rw [h.revZones, h.mdns, h.proxyV4, h.proxyV6, hexcluded, heligible]

/-- Respelled, a configuration gives the same snapshot but for its stub zones and the suffixes
exempt from the rebind filter. -/
theorem Respelled.build (h : Respelled cfg cfg') (ord ord' : RangeOrder Str (List Str)) :
    (site.build newRR cfg ord).map unrouted =
      (site.build newRR cfg' ord').map unrouted := by
  have hbase := @Respelled.baseSnapshot cfg cfg' site h ord ord'
  unfold Site.build buildSnapshot
  dsimp only
  rcases site.lister with _ | l
  · exact congrArg (fun s => (.ok (site.finish s) : Except Str Snapshot)) hbase
  · dsimp only
    rcases l.zones with e | zones
    · rfl
    · dsimp only
      rw [h.foldlM_addZone]
      rcases cfg'.zones.localZones.foldlM (addZone newRR site.tr cfg' l _) ∅ with e | zones
      · rfl
      · exact congrArg (fun s : Snapshot => (.ok (site.finish { s with zones, cfHealthy := true }) :
          Except Str Snapshot)) hbase

end Respelled

/-- The steps before the stub zones leave the name to them. -/
def ReachesStubs (localDomain name : Str) : Prop :=
  ¬ AtOrBelow name "resolver.arpa.".toList ∧ isArpa name = false ∧ ¬ UnderLocal { localDomain } name

section Routes

variable {newRR : NewRR} {snap snap' : Snapshot} {view : MDNSView} {req : Msg} {q : Question}
  {name apex : Str}

theorem ReachesStubs.above {localDomain : Str} (h : ReachesStubs localDomain name)
    (hbelow : AtOrBelow name apex) : ReachesStubs localDomain apex := by
  obtain ⟨hra, harpa, hlocal⟩ := h
  refine ⟨fun hra' => hra (hbelow.trans hra'), ?_, fun hlocal' => hlocal ?_⟩
  · rw [isArpa, Bool.or_eq_false_iff, hasSuffix, hasSuffix, decide_eq_false_iff_not,
      decide_eq_false_iff_not] at harpa ⊢
    exact ⟨fun h => harpa.1 (h.trans hbelow.suffix), fun h => harpa.2 (h.trans hbelow.suffix)⟩
  · rcases hlocal' with h | ⟨hne, h⟩
    · exact Or.inl (h.trans hbelow.suffix)
    · exact Or.inr ⟨hne, h.trans hbelow.suffix⟩

theorem resolve_congr_stubs (hsnap : unrouted snap = unrouted snap')
    (hstub : ∀ q, req.question = [q] → ReachesStubs snap.localDomain (queryName q) →
      stubMatch snap (queryName q) = stubMatch snap' (queryName q)) :
    resolve newRR snap view req = resolve newRR snap' view req := by
  obtain ⟨stubs, allow, rfl⟩ : ∃ stubs allow,
      snap' = { snap with stubZones := stubs, allowSuffix := allow } := by
    obtain ⟨⟩ := snap
    obtain ⟨⟩ := snap'
    cases hsnap
    exact ⟨_, _, rfl⟩
  rcases hq : req.question with _ | ⟨q, _ | ⟨q', qs⟩⟩
  · rw [resolve, resolve, hq]
  · by_cases hs : Special snap (queryName q)
    · have hs' : Special { snap with stubZones := stubs, allowSuffix := allow } (queryName q) := hs
      rw [resolve_of_special hq hs, resolve_of_special hq hs']
      rfl
    · have hs' : ¬ Special { snap with stubZones := stubs, allowSuffix := allow } (queryName q) :=
        hs
      have hlabel : localLabel { snap with stubZones := stubs, allowSuffix := allow } =
        localLabel snap := rfl
      rw [resolve_of_not_special hq hs, resolve_of_not_special hq hs', hlabel]
      by_cases harpa : isArpa (queryName q) = true
      · rw [if_pos harpa, if_pos harpa]
        rfl
      · rw [if_neg harpa, if_neg harpa]
        rcases hlocal : localLabel snap (queryName q) with _ | label
        · have hreach : ReachesStubs snap.localDomain (queryName q) :=
            ⟨fun h => hs (Or.inl h), Bool.eq_false_iff.mpr harpa,
              localLabel_eq_none_iff_not_underLocal.mp hlocal⟩
          dsimp only
          rw [hstub q hq hreach]
          rfl
        · rfl
  · rw [resolve, resolve, hq]

theorem stub_resolve (hq : req.question = [q]) (hs : ¬ Special snap (queryName q))
    (hreach : ReachesStubs snap.localDomain (queryName q)) :
    (resolve newRR snap view req).stub = stubMatch snap (queryName q) := by
  have hlocal : localLabel snap (queryName q) = none :=
    localLabel_eq_none_iff_not_underLocal.mpr hreach.2.2
  rw [resolve_of_not_special hq hs, hreach.2.1, hlocal]
  simp only [Bool.false_eq_true, if_false]
  split_ifs with hstub
  · rfl
  · exact (not_not.mp hstub).symm
  · exact (not_not.mp hstub).symm
  · exact (not_not.mp hstub).symm

end Routes

/-- The stub table of the keys in one of their spellings. -/
def stubTable (pairs : List (Str × Str)) (side : Str × Str → Str)
    (targets : Str × Str → List Str) : Map Str (List Str) :=
  Map.ofList (pairs.map fun p => (side p, targets p))

section Tables

variable {pairs : List (Str × Str)} {side : Str × Str → Str} {targets : Str × Str → List Str}
  {ord : RangeOrder Str (List Str)} {snap : Snapshot} {p : Str × Str} {name apex : Str}

theorem mem_visit_stubTable (h : (pairs.map side).Nodup) {e : Sigma fun _ : Str => List Str} :
    e ∈ ord.visit (stubTable pairs side targets) ↔ ∃ p ∈ pairs, ⟨side p, targets p⟩ = e := by
  have hkeys : ((pairs.map fun p => (side p, targets p)).map Prod.fst).Nodup := by
    rw [List.map_map]
    exact h
  obtain ⟨k, v⟩ := e
  rw [(ord.perm _).mem_iff, stubTable, Map.mem_entries_ofList hkeys, List.mem_map]
  constructor
  · rintro ⟨p, hp, heq⟩
    cases heq
    exact ⟨p, hp, rfl⟩
  · rintro ⟨p, hp, heq⟩
    cases heq
    exact ⟨p, hp, rfl⟩

theorem stubMatch_lastly (h : (pairs.map side).Nodup) (hp : p ∈ pairs)
    (hsnap : snap.stubZones = stubZones (stubTable pairs side targets) (Map.lastly (side p))) :
    stubMatch snap (fqdn (side p)) =
      (stubZone (side p) (targets p)).target.map addrPortString := by
  have hlookup : snap.stubZones.lookup (fqdn (side p)) = some (stubZone (side p) (targets p)) := by
    have hmem : (⟨side p, targets p⟩ : Sigma fun _ : Str => List Str) ∈
        (stubTable pairs side targets).entries :=
      ((default : RangeOrder Str (List Str)).perm _).mem_iff.mp
        ((mem_visit_stubTable h).mpr ⟨p, hp, rfl⟩)
    obtain ⟨l, hl⟩ := Map.visit_lastly (Map.lookup_eq_some_iff_mem_entries.mpr hmem)
    rw [hsnap, stubZones, hl, List.foldl_append]
    exact AList.lookup_insert _
  have hne : fqdn (side p) ≠ [] := by
    intro hnil
    have hdot := dot_suffix_fqdn (side p)
    rw [hnil, List.suffix_nil] at hdot
    cases hdot
  have hbest : longestSuffix (fqdn (side p)) snap.stubZones.keys = fqdn (side p) :=
    longestSuffix_eq (AList.mem_keys.mp (Map.mem_of_lookup hlookup)) (Or.inl rfl) hne
      fun a _ ha => ha.suffix.length_le
  rw [stubMatch, hbest, if_neg hne, hlookup]
  rfl

theorem exists_of_stubMatch (h : (pairs.map side).Nodup)
    (hsnap : snap.stubZones = stubZones (stubTable pairs side targets) ord)
    (hstub : stubMatch snap name ≠ []) :
    ∃ p ∈ pairs, AtOrBelow name (fqdn (side p)) ∧ targets p ≠ [] := by
  unfold stubMatch at hstub
  dsimp only at hstub
  split_ifs at hstub with hnil
  · exact absurd rfl hstub
  · obtain ⟨-, hbelow⟩ := (longestSuffix_cases name snap.stubZones.keys).resolve_left hnil
    generalize longestSuffix name snap.stubZones.keys = best at hstub hbelow
    rcases hlookup : snap.stubZones.lookup best with _ | z
    · rw [hlookup] at hstub
      exact absurd rfl hstub
    · rw [hlookup] at hstub
      rw [hsnap, stubZones] at hlookup
      rcases Map.lookup_foldl_insert hlookup with ⟨e, he, rfl, rfl⟩ | h
      · obtain ⟨p, hp, rfl⟩ := (mem_visit_stubTable h).mp he
        refine ⟨p, hp, hbelow, fun hnil => hstub ?_⟩
        rw [hnil]
        rfl
      · cases h

theorem lookup_stubZones (h : (pairs.map side).Nodup)
    (huniq : ∀ p ∈ pairs, ∀ q ∈ pairs, fqdn (side p) = apex → fqdn (side q) = apex → p = q) :
    ((stubZones (stubTable pairs side targets) ord).lookup apex).map StubZone.target =
      (pairs.find? fun p => fqdn (side p) = apex).map fun p =>
        (stubZone [] (targets p)).target := by
  rcases hf : pairs.find? fun p => fqdn (side p) = apex with _ | p
  · rw [List.find?_eq_none] at hf
    rw [stubZones, Map.lookup_foldl_insert_of_not_mem]
    · rfl
    · intro e he heq
      obtain ⟨p, hp, rfl⟩ := (mem_visit_stubTable h).mp he
      exact hf p hp (decide_eq_true heq)
  · have hp := List.mem_of_find?_eq_some hf
    have hfound := List.find?_some hf
    have hapex : fqdn (side p) = apex := of_decide_eq_true hfound
    have hmem : (⟨side p, targets p⟩ : Sigma fun _ : Str => List Str) ∈
        ord.visit (stubTable pairs side targets) := (mem_visit_stubTable h).mpr ⟨p, hp, rfl⟩
    have hlookup := @Map.lookup_foldl_insert_of_mem Str StubZone _ _ _ (fun e => fqdn e.1)
      (fun e => stubZone e.1 e.2) ∅ _ hmem fun e he heq => by
        obtain ⟨q, hq, rfl⟩ := (mem_visit_stubTable h).mp he
        rw [huniq q hq p hp (heq.trans hapex) hapex]
    rw [stubZones, ← hapex, hlookup]
    rfl

end Tables

/-- The keys of two stub tables: the same names, each in its spelling in the one and in the
other. -/
structure StubKeys where
  pairs : List (Str × Str)
  same : ∀ p ∈ pairs, SameName p.1 p.2
  nodup_fst : (pairs.map Prod.fst).Nodup
  nodup_snd : (pairs.map Prod.snd).Nodup

def withStub (cfg : Config) (stub : Map Str (List Str)) : Config :=
  { cfg with zones := { cfg.zones with stub } }

/-- What is asked of the keys that a query can reach: a key is in lower case in both tables or in
neither, and no two keys in lower case are one name. -/
def SameCase (localDomain : Str) (pairs : List (Str × Str)) : Prop :=
  (∀ p ∈ pairs, ReachesStubs localDomain (toLower (fqdn p.1)) →
    (toLower p.1 = p.1 ↔ toLower p.2 = p.2)) ∧
  ∀ p ∈ pairs, ∀ q ∈ pairs, ReachesStubs localDomain (toLower (fqdn p.1)) →
    toLower p.1 = p.1 → fqdn p.1 = fqdn q.1 → p = q

/-- With the same targets, account, view and request the outcomes are the same, in whatever order
the stub tables are visited. -/
def SameOutcomes (newRR : NewRR) (cfg cfg' : Config) (keys : StubKeys) : Prop :=
  ∀ (targets : Str × Str → List Str) (site : Site) (ord ord' : RangeOrder Str (List Str))
    (view : MDNSView) (req : Msg),
    (site.build newRR (withStub cfg (stubTable keys.pairs Prod.fst targets)) ord).map
        (resolve newRR · view req) =
      (site.build newRR (withStub cfg' (stubTable keys.pairs Prod.snd targets)) ord').map
        (resolve newRR · view req)

section Tables

variable {newRR : NewRR} {cfg cfg' : Config} {site : Site} {ord ord' : RangeOrder Str (List Str)}
  {snap snap' : Snapshot} {keys : StubKeys} {name apex localDomain : Str}
  {targets : Str × Str → List Str}

theorem Respelled.withStub (h : Respelled cfg cfg') (stub stub' : Map Str (List Str)) :
    Respelled (withStub cfg stub) (Mirror.withStub cfg' stub') where
  localZones := h.localZones
  reverse := h.reverse
  reverseDetect := h.reverseDetect
  excludeZones := h.excludeZones
  eligible := h.eligible
  mdns := h.mdns
  proxyV4 := h.proxyV4
  proxyV6 := h.proxyV6
  cloudflare := h.cloudflare

theorem build_eq_ok (h : site.build newRR cfg ord = .ok snap) :
    snap.stubZones = stubZones cfg.zones.stub ord ∧
      snap.localDomain = cfg.mdns.localDomainLabel := by
  unfold Site.build at h
  rcases hbuild : buildSnapshot newRR site.tr cfg site.lister (site.revZones cfg) site.ordZones ord
    with e | snap₀
  · rw [hbuild] at h
    cases h
  · rw [hbuild] at h
    cases h
    rcases buildSnapshot_eq_ok hbuild with ⟨-, rfl⟩ | ⟨l, ids, zones, -, -, -, rfl⟩
    · exact ⟨rfl, rfl⟩
    · exact ⟨rfl, rfl⟩

theorem SameCase.fqdn_eq_iff (h : SameCase localDomain keys.pairs) {p : Str × Str}
    (hp : p ∈ keys.pairs) (hlower : toLower apex = apex) (hreach : ReachesStubs localDomain apex) :
    fqdn p.1 = apex ↔ fqdn p.2 = apex := by
  have hname := (keys.same p hp).fqdn
  constructor
  · rintro rfl
    have hcase := h.1 p hp (hlower.symm ▸ hreach)
    have hsnd := (toLower_fqdn_eq_iff p.2).mpr (hcase.mp ((toLower_fqdn_eq_iff p.1).mp hlower))
    rw [← hsnd, ← hname, hlower]
  · rintro rfl
    rw [hlower] at hname
    have hcase := h.1 p hp (hname.symm ▸ hreach)
    have hfst := (toLower_fqdn_eq_iff p.1).mpr (hcase.mpr ((toLower_fqdn_eq_iff p.2).mp hlower))
    rw [← hfst, hname]

theorem SameCase.unique (h : SameCase localDomain keys.pairs) (hlower : toLower apex = apex)
    (hreach : ReachesStubs localDomain apex) :
    ∀ p ∈ keys.pairs, ∀ q ∈ keys.pairs, fqdn p.1 = apex → fqdn q.1 = apex → p = q := by
  rintro p hp q hq rfl heq
  exact h.2 p hp q hq (hlower.symm ▸ hreach) ((toLower_fqdn_eq_iff p.1).mp hlower) heq.symm

theorem SameCase.stubMatch (h : SameCase localDomain keys.pairs)
    (hsnap : snap.stubZones = stubZones (stubTable keys.pairs Prod.fst targets) ord)
    (hsnap' : snap'.stubZones = stubZones (stubTable keys.pairs Prod.snd targets) ord')
    (hlower : toLower name = name) (hreach : ReachesStubs localDomain name) :
    stubMatch snap name = Resolver.stubMatch snap' name := by
  refine stubMatch_congr fun apex hbelow => ?_
  have hapex := toLower_eq_of_suffix hlower hbelow.suffix
  have hiff : ∀ p ∈ keys.pairs, fqdn p.1 = apex ↔ fqdn p.2 = apex := fun p hp =>
    h.fqdn_eq_iff hp hapex (hreach.above hbelow)
  have huniq := h.unique hapex (hreach.above hbelow)
  rw [hsnap, hsnap', lookup_stubZones keys.nodup_fst huniq, lookup_stubZones keys.nodup_snd
    fun p hp q hq hpa hqa => huniq p hp q hq ((hiff p hp).mpr hpa) ((hiff q hq).mpr hqa)]
  exact congrArg _ (List.find?_congr fun p hp => decide_eq_decide.mpr (hiff p hp))

theorem SameCase.sameOutcomes (h : Respelled cfg cfg')
    (hcase : SameCase cfg.mdns.localDomainLabel keys.pairs) :
    SameOutcomes newRR cfg cfg' keys := by
  intro targets site ord ord' view req
  have hbuild := @Respelled.build newRR _ _ site (h.withStub
    (stubTable keys.pairs Prod.fst targets) (stubTable keys.pairs Prod.snd targets)) ord ord'
  rcases hb : site.build newRR (Mirror.withStub cfg (stubTable keys.pairs Prod.fst targets)) ord
    with e | snap <;>
  rcases hb' : site.build newRR (Mirror.withStub cfg' (stubTable keys.pairs Prod.snd targets)) ord'
    with e' | snap' <;>
  rw [hb, hb'] at hbuild
  · cases hbuild
    rfl
  · cases hbuild
  · cases hbuild
  · obtain ⟨hstubs, hlocal⟩ := build_eq_ok hb
    have hsnap : unrouted snap = unrouted snap' := Except.ok.inj hbuild
    have hsame : resolve newRR snap view req = resolve newRR snap' view req := by
      apply resolve_congr_stubs hsnap
      intro q hq hreach
      rw [hlocal] at hreach
      exact hcase.stubMatch hstubs (build_eq_ok hb').1 (toLower_toLower _) hreach
    exact congrArg Except.ok hsame

end Tables

section Needed

variable {newRR : NewRR} {cfg cfg' : Config} {ord ord' : RangeOrder Str (List Str)}
  {snap : Snapshot} {keys : StubKeys} {pairs : List (Str × Str)} {side : Str × Str → Str}
  {name : Str} {p q : Str × Str}

/-- A site without an account and without interfaces. -/
def bareSite : Site where
  quote := id
  detected := fun _ => .ok ([], [])
  lister := none
  tr := fun _ => .error []
  ordZones := default
  vhosts := ∅
  ddr := none

def bareSnapshot (cfg : Config) (ord : RangeOrder Str (List Str)) : Snapshot :=
  bareSite.finish (baseSnapshot cfg (bareSite.revZones cfg) ord)

theorem build_bareSite :
    bareSite.build newRR cfg ord = .ok (bareSnapshot cfg ord) := rfl

theorem not_special_bareSnapshot (h : ReachesStubs cfg.mdns.localDomainLabel name) :
    ¬ Special (bareSnapshot cfg ord) name := by
  rintro (hra | ⟨d, hd, -⟩ | hstatic)
  · exact h.1 hra
  · cases hd
  · have hname : name = healthName := List.mem_singleton.mp (AList.mem_keys.mp hstatic)
    rw [hname] at h
    exact h.2.2 (Or.inl (by decide))

theorem stub_resolve_bareSnapshot {k : Str}
    (h : ReachesStubs cfg.mdns.localDomainLabel (toLower (fqdn k))) :
    (resolve newRR (bareSnapshot cfg ord) {} (ask k typeA)).stub =
      stubMatch (bareSnapshot cfg ord) (toLower (fqdn k)) :=
  @stub_resolve newRR (bareSnapshot cfg ord) {} (ask k typeA) ⟨k, typeA, classINET⟩ rfl
    (not_special_bareSnapshot h) h

def only (p q : Str × Str) : List Str := if q = p then ["192.0.2.1:53".toList] else []

theorem target_only_self : (stubZone name (only p p)).target.map addrPortString ≠ [] := by
  rw [only, if_pos rfl]
  change (stubZone [] ["192.0.2.1:53".toList]).target.map addrPortString ≠ []
  decide

theorem toLower_eq_of_stubMatch (h : (pairs.map side).Nodup)
    (hsnap : snap.stubZones = stubZones (stubTable pairs side (only p)) ord)
    (hlower : toLower name = name) (hstub : stubMatch snap name ≠ []) :
    toLower (side p) = side p := by
  obtain ⟨q, -, hbelow, htargets⟩ := exists_of_stubMatch h hsnap hstub
  obtain rfl : q = p := by
    by_contra hne
    exact htargets (if_neg hne)
  exact (toLower_fqdn_eq_iff _).mp (toLower_eq_of_suffix hlower hbelow.suffix)

theorem SameOutcomes.stubMatch (h : SameOutcomes newRR cfg cfg' keys) (hmdns : cfg.mdns = cfg'.mdns)
    (targets : Str × Str → List Str) (ord ord' : RangeOrder Str (List Str)) {k : Str}
    (hreach : ReachesStubs cfg.mdns.localDomainLabel (toLower (fqdn k))) :
    stubMatch (bareSnapshot (withStub cfg (stubTable keys.pairs Prod.fst targets)) ord)
        (toLower (fqdn k)) =
      Resolver.stubMatch
        (bareSnapshot (withStub cfg' (stubTable keys.pairs Prod.snd targets)) ord')
        (toLower (fqdn k)) := by
  have hreach' : ReachesStubs cfg'.mdns.localDomainLabel (toLower (fqdn k)) := hmdns ▸ hreach
  have hleft := @stub_resolve_bareSnapshot newRR
    (withStub cfg (stubTable keys.pairs Prod.fst targets)) ord k hreach
  have hright := @stub_resolve_bareSnapshot newRR
    (withStub cfg' (stubTable keys.pairs Prod.snd targets)) ord' k hreach'
  have houtcome := h targets bareSite ord ord' {} (ask k typeA)
  rw [build_bareSite, build_bareSite] at houtcome
  rw [← hleft, ← hright]
  exact congrArg Outcome.stub (Except.ok.inj houtcome)

theorem SameOutcomes.lower_iff (h : SameOutcomes newRR cfg cfg' keys)
    (hmdns : cfg.mdns = cfg'.mdns) (hp : p ∈ keys.pairs)
    (hreach : ReachesStubs cfg.mdns.localDomainLabel (toLower (fqdn p.1))) :
    toLower p.1 = p.1 ↔ toLower p.2 = p.2 := by
  have hname := (keys.same p hp).fqdn
  -- Only this key has targets, and the table that has it in lower case visits it last.
  constructor
  · intro hlower
    have hstub := h.stubMatch hmdns (only p) (Map.lastly p.1) default hreach
    rw [(toLower_fqdn_eq_iff _).mpr hlower] at hstub
    have hlast := hstub.symm.trans (stubMatch_lastly keys.nodup_fst hp rfl)
    exact toLower_eq_of_stubMatch keys.nodup_snd rfl ((toLower_fqdn_eq_iff _).mpr hlower)
      (hlast ▸ target_only_self)
  · intro hlower
    have hstub := h.stubMatch hmdns (only p) default (Map.lastly p.2) hreach
    rw [hname, (toLower_fqdn_eq_iff _).mpr hlower] at hstub
    have hlast := hstub.trans (stubMatch_lastly keys.nodup_snd hp rfl)
    exact toLower_eq_of_stubMatch keys.nodup_fst rfl ((toLower_fqdn_eq_iff _).mpr hlower)
      (hlast ▸ target_only_self)

theorem SameOutcomes.eq_of_fqdn_eq (h : SameOutcomes newRR cfg cfg' keys)
    (hmdns : cfg.mdns = cfg'.mdns) (hp : p ∈ keys.pairs) (hq : q ∈ keys.pairs)
    (hreach : ReachesStubs cfg.mdns.localDomainLabel (toLower (fqdn p.1)))
    (hlower : toLower p.1 = p.1) (heq : fqdn p.1 = fqdn q.1) : p = q := by
  by_contra hne
  have hpl := (toLower_fqdn_eq_iff _).mpr hlower
  have hql : toLower q.1 = q.1 := (toLower_fqdn_eq_iff _).mp (heq ▸ hpl)
  have hq2 : toLower q.2 = q.2 := (h.lower_iff hmdns hq (heq ▸ hreach)).mp hql
  have hname : fqdn p.1 = fqdn q.2 := by
    rw [← (toLower_fqdn_eq_iff _).mpr hq2, ← (keys.same q hq).fqdn, ← heq, hpl]
  -- One table visits the key with targets last, the other the key without.
  have hstub := h.stubMatch hmdns (only p) (Map.lastly p.1) (Map.lastly q.2) hreach
  rw [hpl, stubMatch_lastly keys.nodup_fst hp rfl, hname, stubMatch_lastly keys.nodup_snd hq rfl,
    only, only, if_neg (Ne.symm hne)] at hstub
  exact target_only_self hstub

/-- Respelled configurations have the same outcomes, for any targets, just if their stub keys agree
on lower case. -/
theorem sameOutcomes_iff (newRR : NewRR) (cfg cfg' : Config) (h : Respelled cfg cfg')
    (keys : StubKeys) :
    SameOutcomes newRR cfg cfg' keys ↔ SameCase cfg.mdns.localDomainLabel keys.pairs := by
  constructor
  · intro hsame
    exact ⟨fun p hp hreach => hsame.lower_iff h.mdns hp hreach,
      fun p hp q hq hreach hlower heq => hsame.eq_of_fqdn_eq h.mdns hp hq hreach hlower heq⟩
  · intro hcase
    exact hcase.sameOutcomes h

/-- One stub key, with the dot at its end and without. -/
def dottedKey : StubKeys where
  pairs := [("corp.test.".toList, "corp.test".toList)]
  same := by
    intro p hp
    obtain rfl := List.mem_singleton.mp hp
    have hbare : Bare "corp.test".toList := ⟨by rintro c ⟨⟩; decide, 't', by decide, by decide⟩
    exact Or.inr ⟨_, _, hbare, hbare, Or.inr rfl, Or.inl rfl, rfl⟩
  nodup_fst := List.nodup_singleton _
  nodup_snd := List.nodup_singleton _

def mirroring (zone : Str) : Config := { zones := { localZones := [zone] } }

theorem respelled_mirroring {zone zone' : Str} (h : SameName zone zone') :
    Respelled (mirroring zone) (mirroring zone') :=
  ⟨.cons h .nil, .nil, rfl, .nil, .nil, rfl, rfl, rfl, rfl⟩

/-- Beside such a key a mirrored zone may be spelled in any way. -/
theorem sameOutcomes_dottedKey :
    SameOutcomes readLine (mirroring "Example.COM.".toList) (mirroring "example.com".toList)
      dottedKey := by
  have hzone : SameName "Example.COM.".toList "example.com".toList :=
    Or.inr ⟨"Example.COM".toList, "example.com".toList,
      ⟨by rintro c ⟨⟩; decide, 'M', by decide, by decide⟩,
      ⟨by rintro c ⟨⟩; decide, 'm', by decide, by decide⟩, Or.inr rfl, Or.inl rfl, by decide⟩
  refine (sameOutcomes_iff readLine _ _ (respelled_mirroring hzone) dottedKey).mpr
    ⟨fun p hp _ => ?_, fun p hp q hq _ _ _ => ?_⟩
  · obtain rfl := List.mem_singleton.mp hp
    decide
  · rw [List.mem_singleton.mp hp, List.mem_singleton.mp hq]

def capitalKey : StubKeys where
  pairs := [("Corp.test".toList, "corp.test".toList)]
  same := by
    intro p hp
    obtain rfl := List.mem_singleton.mp hp
    exact Or.inr ⟨_, _, ⟨by rintro c ⟨⟩; decide, 't', by decide, by decide⟩,
      ⟨by rintro c ⟨⟩; decide, 't', by decide, by decide⟩, Or.inl rfl, Or.inl rfl, by decide⟩
  nodup_fst := List.nodup_singleton _
  nodup_snd := List.nodup_singleton _

/-- With the capital letter the queries for the stub zone are forwarded. -/
theorem capitalKey_forwarded :
    (bareSite.build readLine (withStub {} (stubTable capitalKey.pairs Prod.fst fun _ =>
        ["192.0.2.53:53".toList])) default).map
          (resolve readLine · {} (ask "corp.test.".toList typeA)) = .ok { forward := true } ∧
      (bareSite.build readLine (withStub {} (stubTable capitalKey.pairs Prod.snd fun _ =>
        ["192.0.2.53:53".toList])) default).map
          (resolve readLine · {} (ask "corp.test.".toList typeA)) =
        .ok { stub := ["192.0.2.53:53".toList] } :=
  ⟨rfl, rfl⟩

end Needed

end SplitDNS.Mirror
