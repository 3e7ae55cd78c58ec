import SplitDNS.Dns.Presentation
import SplitDNS.Mirror.Nodes

/-! # Empty non-terminals

The names that a built zone marks as empty non-terminals, against the names that
own nothing and have an owner of records or tunnel addresses below them. The marks
are derived from the owners of records alone, so the two differ around tunnels.
-/

namespace SplitDNS.Mirror

open Go Go.Netip Go.Strings Dns Model

def Owns (z : Zone) (o : Str) : Prop := o ∈ z.records ∨ o ∈ z.tunnelAddr

/-- The name owns nothing, but some name below it does. -/
structure EmptyNonTerminal (z : Zone) (anc : Str) : Prop where
  not_apex : anc ≠ []
  not_wildcard : anc ≠ ['*']
  not_owner : ¬ Owns z anc
  descendant : ∃ o, Owns z o ∧ '.' :: anc <:+ o

section

variable (newRR : NewRR) (apex zoneID : Str) (tunnelSuffixes : List Str)
  (recs : List CFAPI.Record)

/-- The owner has a record of its own in the list, the alias of a tunnel apart. -/
def StoredOwner (o : Str) : Prop :=
  o ≠ ['*'] ∧ storedAt newRR (fqdn (toLower apex)) zoneID tunnelSuffixes recs o ≠ []

/-- The owners of tunnels among the records of a list are where the marks are right: there is no
record below the wildcard owner nor below a tunnel owner without records, and below every name
above a tunnel owner there is a record unless the name owns something. -/
structure TunnelsApart : Prop where
  wildcard : ∀ o, StoredOwner newRR apex zoneID tunnelSuffixes recs o → ¬ ['.', '*'] <:+ o
  below : ∀ t o, Tunnelled newRR (fqdn (toLower apex)) zoneID tunnelSuffixes recs t → t ≠ [] →
    ¬ StoredOwner newRR apex zoneID tunnelSuffixes recs t →
    StoredOwner newRR apex zoneID tunnelSuffixes recs o → ¬ '.' :: t <:+ o
  above : ∀ t anc, Tunnelled newRR (fqdn (toLower apex)) zoneID tunnelSuffixes recs t →
    '.' :: anc <:+ t → anc ≠ [] → anc ≠ ['*'] →
    ¬ StoredOwner newRR apex zoneID tunnelSuffixes recs anc →
    ¬ Tunnelled newRR (fqdn (toLower apex)) zoneID tunnelSuffixes recs anc →
    ∃ o, StoredOwner newRR apex zoneID tunnelSuffixes recs o ∧ '.' :: anc <:+ o

end

variable {newRR : NewRR} {apex zoneID : Str} {tunnelSuffixes : List Str}
  {recs : List CFAPI.Record} {tr : TunnelResolver}

/-- If all tunnels resolve, the marks of a built zone are its empty non-terminals exactly if its
tunnels are apart from its records. -/
theorem ent_exact_iff
    (htr : ∀ o, Tunnelled newRR (fqdn (toLower apex)) zoneID tunnelSuffixes recs o →
      tunnelRecords tr (fqdn (toLower apex)) o ≠ []) :
    (∀ anc, anc ∈ (buildZone newRR apex zoneID tunnelSuffixes recs tr).ent ↔
        EmptyNonTerminal (buildZone newRR apex zoneID tunnelSuffixes recs tr) anc) ↔
      TunnelsApart newRR apex zoneID tunnelSuffixes recs := by
  have hrecords : ∀ o, o ∈ (buildZone newRR apex zoneID tunnelSuffixes recs tr).records ↔
      StoredOwner newRR apex zoneID tunnelSuffixes recs o := fun o => mem_buildZone_records ..
  have htunnel : ∀ o, o ∈ (buildZone newRR apex zoneID tunnelSuffixes recs tr).tunnelAddr ↔
      Tunnelled newRR (fqdn (toLower apex)) zoneID tunnelSuffixes recs o := fun o =>
    (mem_buildZone_tunnelAddr ..).trans (and_iff_left_of_imp (htr o))
  have hent := fun anc =>
    @mem_buildZone_ent newRR apex zoneID tunnelSuffixes recs tr anc
  simp only [hrecords] at hent
  constructor
  · intro hexact
    refine ⟨fun o ho hsuf => ?_, fun t o ht hne hnot ho hsuf => ?_,
      fun t anc ht hsuf hne hwild hnot hnt => ?_⟩
    · have hmark := (hent ['*']).mpr ⟨by decide, fun h => h.1 rfl, o, ho, hsuf⟩
      exact ((hexact _).mp hmark).not_wildcard rfl
    · have hmark := (hent t).mpr ⟨hne, hnot, o, ho, hsuf⟩
      exact ((hexact t).mp hmark).not_owner (Or.inr ((htunnel t).mpr ht))
    · have hempty : EmptyNonTerminal (buildZone newRR apex zoneID tunnelSuffixes recs tr) anc := by
        refine ⟨hne, hwild, ?_, t, Or.inr ((htunnel t).mpr ht), hsuf⟩
        rintro (h | h)
        · exact hnot ((hrecords anc).mp h)
        · exact hnt ((htunnel anc).mp h)
      exact ((hent anc).mp ((hexact anc).mpr hempty)).2.2
  · intro hapart anc
    rw [hent]
    constructor
    · rintro ⟨hne, hnot, o, ho, hsuf⟩
      refine ⟨hne, ?_, ?_, o, Or.inl ((hrecords o).mpr ho), hsuf⟩
      · rintro rfl
        exact hapart.wildcard o ho hsuf
      · rintro (h | h)
        · exact hnot ((hrecords anc).mp h)
        · exact hapart.below anc o ((htunnel anc).mp h) hne hnot ho hsuf
    · rintro ⟨hne, hwild, hnot, o, ho, hsuf⟩
      have hnotS : ¬ StoredOwner newRR apex zoneID tunnelSuffixes recs anc := fun h =>
        hnot (Or.inl ((hrecords anc).mpr h))
      refine ⟨hne, hnotS, ?_⟩
      rcases ho with ho | ho
      · exact ⟨o, (hrecords o).mp ho, hsuf⟩
      · exact hapart.above o anc ((htunnel o).mp ho) hsuf hne hwild hnotS fun h =>
          hnot (Or.inr ((htunnel anc).mpr h))

section Samples

def tunnelTargets : List Str := [".cfargotunnel.com.".toList]

def presentsAll : TunnelResolver := fun _ => .ok ([.v4 0xC0000207], [])

def deepHost (type content : String) : CFAPI.Record where
  type := type.toList
  name := "app.home.example.com".toList
  content := content.toList

/-- An address two labels down, and a tunnel beside it. -/
def besideTunnel : List CFAPI.Record :=
  [deepHost "A" "192.0.2.1",
    { deepHost "CNAME" "id.cfargotunnel.com" with name := "tunnel.example.com".toList }]

theorem ent_exact_iff_beside :
    let zone := buildZone readLine "example.com".toList [] tunnelTargets besideTunnel presentsAll
    "home".toList ∈ zone.ent ∧ "tunnel".toList ∈ zone.tunnelAddr ∧
      ((∀ anc, anc ∈ zone.ent ↔ EmptyNonTerminal zone anc) ↔
        TunnelsApart readLine "example.com".toList [] tunnelTargets besideTunnel) :=
  ⟨by decide, by decide, ent_exact_iff fun _ _ => List.cons_ne_nil _ _⟩

/-- A name above a tunnel owner is not marked, and a tunnel owner above a record is. -/
theorem ent_misses_tunnels :
    (EmptyNonTerminal (buildZone readLine "example.com".toList [] tunnelTargets
        [deepHost "CNAME" "id.cfargotunnel.com"] presentsAll) "home".toList ∧
      "home".toList ∉ (buildZone readLine "example.com".toList [] tunnelTargets
        [deepHost "CNAME" "id.cfargotunnel.com"] presentsAll).ent) ∧
    ("home".toList ∈ (buildZone readLine "example.com".toList [] tunnelTargets
        [deepHost "A" "192.0.2.1", { deepHost "CNAME" "id.cfargotunnel.com" with
          name := "home.example.com".toList }] presentsAll).ent ∧
      Owns (buildZone readLine "example.com".toList [] tunnelTargets
        [deepHost "A" "192.0.2.1", { deepHost "CNAME" "id.cfargotunnel.com" with
          name := "home.example.com".toList }] presentsAll) "home".toList) := by
  refine ⟨⟨⟨by decide, by decide, ?_, "app.home".toList, Or.inr (by decide), by decide⟩,
    by decide⟩, by decide, Or.inr (by decide)⟩
  rintro (h | h)
  · exact absurd h (by decide)
  · exact absurd h (by decide)

end Samples

end SplitDNS.Mirror
