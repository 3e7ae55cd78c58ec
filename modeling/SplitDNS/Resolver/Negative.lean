import SplitDNS.MDNS.Exact
import SplitDNS.Mirror.Snapshot
import SplitDNS.Resolver.Apex
import SplitDNS.Resolver.Override

/-! # Negative answers

A reply without records has the zone's start of authority in its authority
section, so that it can be cached, and a reply with records has none. The parts
of the resolver that choose records take the choice for the answer: where no
chosen record renders, the reply has neither. Only the overlay and the tunnel
addresses can choose such records, and neither does with the views of the cache
and the addresses of a tunnel resolver.
-/

namespace SplitDNS.Resolver

open Go Go.Netip Go.Strings Dns Model Mirror Config

variable {newRR : NewRR} {snap : Snapshot} {view : MDNSView} {req resp m : Msg} {z : Zone}
  {name owner apex : Str} {q : RRType} {qu : Question} {soa : Model.RR} {rec : Record}

section Authority

/-- The authority section has the record iff there is no answer. -/
def Signed (rec : Record) (m : Msg) : Prop := m.ns = if m.answer = [] then [some rec] else []

end Authority

section Chosen

/-- The records are of the type they are filed under and render at the name. -/
def Audible (newRR : NewRR) (m : Option RRsets) (name : Str) : Prop :=
  ∀ t, ∀ r ∈ rrsetOf m t, r.type = t ∧ r.Renders newRR (fqdn name)

theorem Audible.renderSets_eq_nil_iff {m : RRsets} (h : Audible newRR (some m) name)
    (skip : RRType → Bool) :
    renderSets newRR (m.entries.filter fun p => !skip p.1) name = [] ↔
      ∀ t, skip t = false → rrsetOf (some m) t = [] := by
  rw [Resolver.renderSets_eq_nil_iff]
  constructor
  · intro hnil t ht
    by_contra hne
    obtain ⟨r, hr⟩ := List.exists_mem_of_ne_nil _ hne
    obtain ⟨p, hp, rfl, hrp⟩ := mem_rrsetOf_iff.mp hr
    obtain ⟨htype, hrender⟩ := h p.1 r hr
    exact hnil p (List.mem_filter.mpr ⟨hp, by simp [ht]⟩) r hrp (Or.inr htype) hrender
  · intro hnil p hp r hr
    obtain ⟨hp, hskip⟩ := List.mem_filter.mp hp
    have hmem := mem_rrsetOf_iff.mpr ⟨p, hp, rfl, hr⟩
    rw [hnil p.1 (by simpa using hskip)] at hmem
    cases hmem

@[simp] theorem ns_appendMatching (recs : List Model.RR) :
    (appendMatching newRR resp recs name q).ns = resp.ns := rfl

end Chosen

section Zones

end Zones

section Built

variable {zone zoneID : Str} {tunnelSuffixes : List Str} {recs : List CFAPI.Record}
  {tr : TunnelResolver}

end Built

section Replies

theorem Signed.ns (h : Signed rec m) : m.ns = [] ∨ m.ns = [some rec] := by
  rw [h]
  split_ifs
  · exact Or.inr rfl
  · exact Or.inl rfl

end Replies

section Resolution

variable {tr : TunnelResolver}

end Resolution

section Cached

variable {tr : TunnelResolver}

/-- A cache with one trusted address of a host. -/
def nasCache : MDNS.Cache :=
  { trusted := Map.ofList [("nas".toList,
      { addrs := (∅ : KeySet Addr).insert (.v4 0xC0A80105) () })] }

end Cached

end SplitDNS.Resolver
