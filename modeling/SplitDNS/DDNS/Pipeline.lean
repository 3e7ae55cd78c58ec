import SplitDNS.DDNS.Guards
import SplitDNS.MDNS.Delivery

/-! # From announcements to records

The path of an address change through the daemon: the cache hands a changed set
to the writer's queue, which drops its oldest change when full; one change at a
time is reconciled against the host's records at the provider. The editor calls
all succeed here, and the record source returns what they left.
-/

namespace SplitDNS.DDNS

open Go Go.Netip Go.Strings Model Netmatch MDNS

def chanCap : ℕ := 64

def submit (queue : List Change) (c : Change) : List Change :=
  if queue.length < chanCap then queue ++ [c] else queue.tail ++ [c]

/-- The cache, the writer with its queue and the change it works on, and a host's records. -/
structure System (F : Type*) where
  cache : Cache
  queue : List Change := []
  running : Option Change := none
  writer : Writer F
  store : List Model.RR

inductive SysEvent where
  | announce (a : Announcement) (now : Time) (trust : Trust) (ord : Order)
  | take
  | finish (now : Time) (sortAdded : SliceSort Addr.string)
      (sortDeleted : SliceSort Model.RR.content)

namespace System

variable {F : Type*} [Float64 F]

def request (s : System F) (c : Change) (now : Time) (sortAdded : SliceSort Addr.string)
    (sortDeleted : SliceSort Model.RR.content) : Request where
  change := c
  source _ := .ok s.store
  now := now
  sortAdded := sortAdded
  sortDeleted := sortDeleted

def step (ids : IdSource) (s : System F) : SysEvent → Option (System F)
  | .announce a now trust ord =>
    let out := s.cache.apply a now trust ord
    some
      { s with
        cache := out.cache
        queue := out.calls.foldl (fun q call => submit q ⟨call.1, call.2⟩) s.queue }
  | .take =>
    match s.running, s.queue with
    | none, c :: rest => some { s with queue := rest, running := some c }
    | _, _ => none
  | .finish now sortAdded sortDeleted =>
    s.running.map fun c =>
      let r := s.writer.reconcile (s.request c now sortAdded sortDeleted)
      { s with
        running := none
        writer := r.writer
        store := r.calls.foldl (EditorCall.exec ids) s.store }

end System

/-- The name holds the given addresses and no others. -/
def HoldsExactly (store : List Model.RR) (name : Str) (desired : List Addr) : Prop :=
  (∀ r ∈ store, r.name = name → normAddr r.content ∈ desired.map Addr.string) ∧
    ∀ a ∈ desired, Holds store name a.string

instance (store : List Model.RR) (name : Str) (desired : List Addr) :
    Decidable (HoldsExactly store name desired) :=
  inferInstanceAs (Decidable (_ ∧ _))

theorem holdsExactly_iff {store : List Model.RR} {name : Str} {desired : List Addr} :
    HoldsExactly store name desired ↔ ∀ s, Holds store name s ↔ s ∈ desired.map Addr.string := by
  constructor
  · rintro ⟨hsub, hsup⟩ s
    constructor
    · rintro ⟨r, hr, hname, rfl⟩
      exact hsub r hr hname
    · intro hs
      obtain ⟨a, ha, rfl⟩ := List.mem_map.mp hs
      exact hsup a ha
  · intro h
    exact ⟨fun r hr hname => (h _).mp ⟨r, hr, hname, rfl⟩,
      fun a ha => (h _).mpr (List.mem_map_of_mem ha)⟩

def AddressRecord (name : Str) (r : Model.RR) : Prop :=
  r.name = name ∧ r.proxied = false ∧ (r.type = Dns.typeA ∨ r.type = Dns.typeAAAA)

/-- The records of a host with one name on the allowlist. -/
structure HostRecords (eligible : Map Str Bool) (name : Str) (store : List Model.RR) : Prop where
  listed : eligible.lookup (trimSuffix (toLower name) ['.']) = some true
  records : ∀ r ∈ store, AddressRecord name r
  keys : (store.map recordKey).Nodup
  ne_nil : store ≠ []

theorem HostRecords.filterEligibleRecords_eq {eligible : Map Str Bool} {name : Str}
    {store : List Model.RR} (h : HostRecords eligible name store) :
    filterEligibleRecords store eligible = store := by
  refine List.filter_eq_self.mpr fun r hr => ?_
  obtain ⟨rfl, hp, ht⟩ := h.records r hr
  simp [hp, ht, h.listed]

section Editing

variable {ids : IdSource} {store : List Model.RR} {name : Str} {call : EditorCall}
  {calls : List EditorCall}

def EditorCall.Keeps (name : Str) : EditorCall → Prop
  | update _ _ n type _ => n = name ∧ (type = Dns.typeA ∨ type = Dns.typeAAAA)
  | create _ n type _ => n = name ∧ (type = Dns.typeA ∨ type = Dns.typeAAAA)
  | delete _ _ => True

theorem records_exec (h : ∀ r ∈ store, AddressRecord name r) (hc : call.Keeps name) :
    ∀ r ∈ call.exec ids store, AddressRecord name r := by
  intro r hr
  cases call with
  | update zoneID recordID n type content =>
    obtain ⟨r₀, hr₀, rfl⟩ := List.mem_map.mp hr
    split_ifs
    · exact ⟨hc.1, (h r₀ hr₀).2.1, hc.2⟩
    · exact h r₀ hr₀
  | create zoneID n type content =>
    rcases List.mem_append.mp hr with hr | hr
    · exact h r hr
    · obtain rfl := List.mem_singleton.mp hr
      exact ⟨hc.1, rfl, hc.2⟩
  | delete zoneID recordID => exact h r (List.mem_of_mem_filter hr)

theorem keys_exec (h : (store.map recordKey).Nodup) :
    ((call.exec ids store).map recordKey).Nodup := by
  cases call with
  | update zoneID recordID n type content =>
    have hkeys :
        (EditorCall.exec ids store (.update zoneID recordID n type content)).map recordKey =
        store.map recordKey := by
      rw [EditorCall.exec, List.map_map]
      refine List.map_congr_left fun r _ => ?_
      simp only [Function.comp_apply]
      split_ifs <;> rfl
    rwa [hkeys]
  | create zoneID n type content =>
    rw [EditorCall.exec, List.map_append, List.nodup_append]
    refine ⟨h, List.nodup_singleton _, ?_⟩
    rintro k hk k' hk' rfl
    obtain ⟨r, hr, hrk⟩ := List.mem_map.mp hk
    have hnew := (List.mem_singleton.mp hk').symm.trans hrk.symm
    exact ids.fresh store r hr (congrArg Prod.snd hnew).symm
  | delete zoneID recordID => exact h.sublist (List.filter_sublist.map _)

theorem records_foldl_exec (h : ∀ r ∈ store, AddressRecord name r)
    (hk : (store.map recordKey).Nodup)
    (hc : ∀ call ∈ calls, call.Keeps name) :
    (∀ r ∈ calls.foldl (EditorCall.exec ids) store, AddressRecord name r) ∧
      ((calls.foldl (EditorCall.exec ids) store).map recordKey).Nodup := by
  induction calls generalizing store with
  | nil => exact ⟨h, hk⟩
  | cons call calls ih =>
    rw [List.forall_mem_cons] at hc
    exact ih (records_exec h hc.1) (keys_exec hk) hc.2

end Editing

theorem madeCalls_succeed (i : ℕ) (calls : List EditorCall) :
    madeCalls (fun _ => none) i calls = calls := by
  induction calls generalizing i with
  | nil => rfl
  | cons call calls ih => rw [madeCalls, ih]

section Planning

variable {ids : IdSource} {sortAdded : SliceSort Addr.string}
  {sortDeleted : SliceSort Model.RR.content} {eligible : Map Str Bool} {name : Str}
  {store : List Model.RR} {desired : List Addr} {p : Plan}

theorem HostRecords.foldl_calls (h : HostRecords eligible name store) (hne : desired ≠ [])
    (hplain : ∀ a ∈ desired, Plain a)
    (hp : buildPlan sortAdded sortDeleted store desired = some p) :
    HostRecords eligible name (p.calls.foldl (EditorCall.exec ids) store) ∧
      HoldsExactly (p.calls.foldl (EditorCall.exec ids) store) name desired := by
  have hkeep : ∀ call ∈ p.calls, call.Keeps name := by
    intro call hcall
    obtain ⟨r, hr, hc⟩ := buildPlan_call_concerns hp hcall
    have hname := (h.records r hr).1
    cases call with
    | update zoneID recordID n type content =>
      obtain ⟨a, -, hd⟩ := buildPlan_call_data hp hcall rfl
      refine ⟨hc.2.2.symm.trans hname, ?_⟩
      rw [(Prod.mk.inj hd).1, typeOf]
      split_ifs <;> simp
    | create zoneID n type content =>
      obtain ⟨a, -, hd⟩ := buildPlan_call_data hp hcall rfl
      refine ⟨hc.2.symm.trans hname, ?_⟩
      rw [(Prod.mk.inj hd).1, typeOf]
      split_ifs <;> simp
    | delete zoneID recordID => trivial
  have hexact : HoldsExactly (p.calls.foldl (EditorCall.exec ids) store) name desired := by
    obtain ⟨r, hr⟩ := List.exists_mem_of_ne_nil _ h.ne_nil
    have hone : ∀ r ∈ store, ∀ r' ∈ store, r.name = r'.name := fun r hr r' hr' =>
      (h.records r hr).1.trans (h.records r' hr').1.symm
    have hconv := (buildPlan_converges_iff ids h.keys hplain hp).mpr (Or.inl hone) name
      (List.mem_map.mpr ⟨r, hr, (h.records r hr).1⟩)
    rw [apply, execCalls_succeed] at hconv
    exact holdsExactly_iff.mpr hconv
  obtain ⟨hrec, hkeys⟩ := @records_foldl_exec ids _ _ _ h.records h.keys hkeep
  refine ⟨⟨h.listed, hrec, hkeys, ?_⟩, hexact⟩
  obtain ⟨a, ha⟩ := List.exists_mem_of_ne_nil _ hne
  obtain ⟨r, hr, -⟩ := hexact.2 a ha
  exact List.ne_nil_of_mem hr

theorem HostRecords.plan_empty (h : HostRecords eligible name store)
    (hexact : HoldsExactly store name desired)
    (hp : buildPlan sortAdded sortDeleted store desired = some p) : p.empty = true := by
  obtain ⟨q, hq, hempty⟩ := @buildPlan_empty sortAdded sortDeleted store desired h.ne_nil
    (fun r hr => hexact.1 r hr (h.records r hr).1) fun a ha => by
      obtain ⟨r, hr, -, hs⟩ := hexact.2 a ha
      exact List.mem_map.mpr ⟨r, hr, hs⟩
  obtain rfl := Option.some.inj (hp.symm.trans hq)
  exact hempty

theorem Plan.calls_of_empty (h : p.empty = true) : p.calls = [] := by
  simp only [Plan.empty, Bool.and_eq_true, decide_eq_true_eq] at h
  simp [Plan.calls, h.1.1, h.1.2, h.2]

end Planning

namespace Writer

variable {F : Type*} [Float64 F] {w : Writer F} {x : Request} {host : Str} {p : Plan}

def admits (w : Writer F) (host : Str) (now : Time) : Bool :=
  !w.tooSoon host now && w.global.all fun b => (b.allow now).2

theorem execute_of_admits (hd : w.cfg.dryRun = false) (h : w.admits host x.now = true) :
    (w.execute x host p).calls = madeCalls x.fail 0 p.calls := by
  simp only [admits, Bool.and_eq_true, Bool.not_eq_true'] at h
  have hg : ((w.global.map fun b => b.allow x.now).any fun g => !g.2) = false := by
    cases hb : w.global with
    | none => rfl
    | some b => simpa [hb] using h.2
  simp only [execute, h.1, hg, hd, Bool.false_eq_true, if_false]
  split <;> rfl

variable {ids : IdSource} {name : Str} {store : List Model.RR}

/-- What a live writer leaves of a host's records: they are the host's still, and hold exactly the
public addresses of the change if they did before or the rate guards let it pass. -/
theorem reconcile_store (he : w.cfg.enabled = true) (hd : w.cfg.dryRun = false)
    (hrec : HostRecords w.cfg.eligible name store) (hsrc : x.source = fun _ => .ok store)
    (hfail : x.fail = fun _ => none) (hplain : ∀ a ∈ x.change.desired, Plain a) :
    HostRecords w.cfg.eligible name ((w.reconcile x).calls.foldl (EditorCall.exec ids) store) ∧
      (x.change.desired ≠ [] →
        HoldsExactly store name x.change.desired ∨ w.admits x.change.key x.now = true →
        HoldsExactly ((w.reconcile x).calls.foldl (EditorCall.exec ids) store) name
          x.change.desired) := by
  by_cases hne : x.change.desired = []
  · simp only [reconcile, he, hne, Bool.not_true, Bool.false_eq_true, if_false, if_true]
    exact ⟨hrec, fun h => absurd rfl h⟩
  obtain ⟨p, hp⟩ : ∃ p, buildPlan x.sortAdded x.sortDeleted store x.change.desired = some p := by
    obtain ⟨r, rest, rfl⟩ := List.exists_cons_of_ne_nil hrec.ne_nil
    exact ⟨_, rfl⟩
  obtain ⟨hrec', hexact'⟩ := @HostRecords.foldl_calls ids _ _ _ _ _ _ _ hrec hne hplain hp
  simp only [reconcile, he, hne, hsrc, hrec.filterEligibleRecords_eq, hp, Bool.not_true,
    Bool.false_eq_true, if_false]
  by_cases hempty : p.empty = true
  · rw [if_pos hempty]
    rw [Plan.calls_of_empty hempty] at hexact'
    exact ⟨hrec, fun _ _ => hexact'⟩
  rw [if_neg hempty]
  have hmade : madeCalls x.fail 0 p.calls = p.calls := by rw [hfail, madeCalls_succeed]
  constructor
  · rcases (@execute_cases F _ w x x.change.key p).2 with ⟨hnil, -⟩ | ⟨-, -, hnil | ⟨-, hcalls⟩⟩
    · rw [hnil]
      exact hrec
    · rw [hnil]
      exact hrec
    · rw [hcalls, hmade]
      exact hrec'
  · rintro - (hexact | hadm)
    · exact absurd (hrec.plan_empty hexact hp) hempty
    · rw [execute_of_admits hd hadm, hmade]
      exact hexact'

end Writer

end SplitDNS.DDNS
