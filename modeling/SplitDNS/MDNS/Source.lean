import SplitDNS.MDNS.Parse
import SplitDNS.MDNS.View

/-! # The source of the view

The cache together with the view that is published from it. A packet is folded
into the cache one update at a time, and the view is published again if one of
them reports news. The housekeeping tick drops what has expired and publishes in
any case.
-/

namespace SplitDNS.MDNS

open Go Go.Netip Go.Strings Dns Model

namespace Cache

/-- The cache with the entry of a known host changed, and whether there was a change to make. -/
def amend (c : Cache) (host : Str) (f : Entry → Option Entry) : Cache × Bool :=
  match (c.hosts.lookup host).bind f with
  | some e => ({ c with hosts := c.hosts.insert host e }, true)
  | none => (c, false)

def applyService (c : Cache) (host type : Str) (port : UInt16) (text : List Str) : Cache × Bool :=
  if host = [] || type = [] then (c, false)
  else c.amend host fun e =>
    if e.services.lookup type = some ⟨port, text⟩ then none
    else some { e with services := e.services.insert type ⟨port, text⟩ }

def applyInfo (c : Cache) (host desc : Str) : Cache × Bool :=
  if host = [] || desc = [] then (c, false)
  else c.amend host fun e => if e.info = desc then none else some { e with info := desc }

end Cache

inductive Update where
  | apply (a : Announcement)
  | service (svc : Service)
  | info (svc : Service)
  | expire

/-- A call that drives the source: a packet of a tier, or a round of the housekeeping loop. -/
inductive Drive where
  | packet (p : Option Msg) (trust : Trust)
  | tick

namespace Drive

/-- The updates of `HandlePacket`, the addresses before the services, or of a round of `Run`. -/
def updates : Drive → List Update
  | packet p _ =>
    (parsePacket p).map .apply ++ (parseServices p).flatMap fun svc => [.service svc, .info svc]
  | tick => [.expire]

theorem mem_updates_packet {p : Option Msg} {trust : Trust} {u : Update} :
    u ∈ (packet p trust).updates ↔ (∃ a ∈ parsePacket p, u = .apply a) ∨
      ∃ svc ∈ parseServices p, u = .service svc ∨ u = .info svc := by
  simp [updates, eq_comm]

def trust : Drive → Trust
  | packet _ trust => trust
  | tick => .none

/-- An untrusted packet that announces one address of a host. -/
def announcing (name : Str) (ttl : UInt32) (b : BitVec 32) : Drive :=
  .packet (some { response := true,
                  answer := [some ⟨⟨name, typeA, classINET, ttl⟩, .a (.v4 b)⟩] }) .none

end Drive

namespace Cache

/-- The cache after an update, and whether the caller publishes because of it. -/
def update (c : Cache) (now : Time) (trust : Trust) (ord : Order) : Update → Cache × Bool
  | .apply a => ((c.apply a now trust ord).cache, (c.apply a now trust ord).changed)
  | .service svc => c.applyService svc.host svc.type svc.port svc.text
  | .info svc => c.applyInfo svc.host svc.desc
  | .expire => ((c.expire now ord.hosts).1, true)

def updateAll (c : Cache) (now : Time) (trust : Trust) (ord : Order) (us : List Update) :
    Cache × Bool :=
  us.foldl (fun (c, changed) u =>
    let (c, news) := c.update now trust ord u
    (c, changed || news)) (c, false)

end Cache

structure Source where
  cache : Cache
  view : MDNSView

/-- A call with the time it reads at its start, the time of the view it may publish, and the orders
of its loops. -/
structure SourceEvent where
  drive : Drive
  now : Time
  pub : Time
  ord : Order := {}
  visit : RangeOrder Str Unit := default

namespace Source

/-- `NewSource`, with the settings of its options. -/
def new (staleGrace goodbyeGrace trustedGrace : Duration) (maxTrusted : ℤ) (now : Time)
    (visit : RangeOrder Str Unit) : Source :=
  let c := Cache.empty staleGrace goodbyeGrace trustedGrace maxTrusted
  ⟨c, c.view now visit⟩

/-- The cache after a call, and whether a view of it is published. -/
def updated (s : Source) (ev : SourceEvent) : Cache × Bool :=
  s.cache.updateAll ev.now ev.drive.trust ev.ord ev.drive.updates

/-- `Source.HandlePacket` and a round of `Source.Run`. -/
def step (s : Source) (ev : SourceEvent) : Source :=
  let c := (s.updated ev).1
  ⟨c, if (s.updated ev).2 then c.view ev.pub ev.visit else s.view⟩

end Source

end SplitDNS.MDNS
