import SplitDNS.Dns.Presentation
import SplitDNS.Mirror.Poller
import SplitDNS.Runs.Basic

/-! # Advertising the encrypted resolver

The daemon advertises its encrypted listeners while it has a certificate that
has not expired. The advert is decided when the daemon starts and after every
reload of the certificate, on a signal or when the reloader finds the file
changed; the mirror publishes it with every snapshot. Time alone decides
nothing, so that an advert outlives its certificate until the next reload.
-/

namespace SplitDNS.Encrypted

open Go Go.Netip Go.Strings Dns Model Mirror

structure Listeners where
  adn : Str
  v4 : List Addr := []
  v6 : List Addr := []
  dotUp : Bool := true
  dohUp : Bool := false
  dotPort : UInt16 := 853
  dohPort : UInt16 := 443
  dohPath : Str := []

def Listeners.adnFqdn (l : Listeners) : Str := if l.adn = [] then [] else fqdn (toLower l.adn)

def Listeners.advert (l : Listeners) : DDRAdvert where
  adn := l.adnFqdn
  v4Hints := l.v4
  v6Hints := l.v6
  dot := if l.dotUp then some { port := l.dotPort } else none
  doh := if l.dohUp then some { port := l.dohPort, path := l.dohPath } else none

structure Certificate where
  notAfter : Time
  deriving DecidableEq, Repr

/-- The certificate file: its time of modification, none if it cannot be read, and the certificate
if it loads. -/
structure CertFile where
  mtime : Option Time
  cert : Option Certificate
  deriving DecidableEq, Repr

/-- The certificate that is loaded, the modification time the reloader saw last, the advert that is
stored, and the mirror that publishes it. -/
structure Daemon where
  listeners : Listeners
  file : CertFile
  cur : Certificate
  last : Option Time
  ddr : Option DDRAdvert := none
  vhosts : Finset Str := ∅
  mirror : Mirror.Daemon

structure Clock where
  start : Time
  load : Time
  sync : Time
  start_le : start ≤ load
  load_le : load ≤ sync

inductive Event where
  | tick (clock : Clock)
  | hangUp (clock : Clock)
  | change (file : CertFile)
  | cycle (p : Poll)
  | vhosts (set : Finset Str)

namespace Daemon

/-- `Reload`: an expired certificate is not taken over. -/
def reload (d : Daemon) (now : Time) : Daemon :=
  match d.file.cert with
  | none => d
  | some cert => if cert.notAfter < now then d else { d with cur := cert }

def valid (d : Daemon) (now : Time) : Bool := now < d.cur.notAfter

def resync (d : Daemon) (now : Time) : Daemon :=
  let adv := if d.valid now then some d.listeners.advert else none
  { d with ddr := adv, mirror := d.mirror.republish d.vhosts adv }

def tick (d : Daemon) (clock : Clock) : Daemon :=
  if d.file.mtime ≠ d.last then
    ({ d with last := d.file.mtime }.reload clock.load).resync clock.sync
  else d

def reloadNow (d : Daemon) (clock : Clock) : Daemon := (d.reload clock.load).resync clock.sync

/-- The daemon with a certificate loaded and no advert yet. -/
def boot (listeners : Listeners) (file : CertFile) (cur : Certificate) (last : Option Time)
    (vhosts : Finset Str) (mirror : Mirror.Daemon) (s : Start) : Daemon :=
  { listeners, file, cur, last, vhosts, mirror := mirror.restart { s with vhosts, ddr := none } }

/-- The daemon after its start, which decides on the advert. -/
def start (listeners : Listeners) (file : CertFile) (cur : Certificate) (last : Option Time)
    (vhosts : Finset Str) (mirror : Mirror.Daemon) (s : Start) (now : Time) : Daemon :=
  (boot listeners file cur last vhosts mirror s).resync now

def step (newRR : NewRR) (d : Daemon) : Event → Daemon
  | .tick clock => d.tick clock
  | .hangUp clock => d.reloadNow clock
  | .change file => { d with file }
  | .cycle p =>
    let p := { p with surroundings := { p.surroundings with vhosts := d.vhosts, ddr := d.ddr } }
    { d with mirror := (d.mirror.cycle newRR p).1 }
  | .vhosts set => { d with vhosts := set, mirror := d.mirror.republish set d.ddr }

def served (d : Daemon) : Option DDRAdvert := d.mirror.published.head?.bind (·.ddr)

variable {newRR : NewRR} {d : Daemon}

/-- The mirror serves the stored advert as soon as it has published anything, and none before. -/
structure Served (d : Daemon) : Prop where
  stored : ∀ snap, d.mirror.last = some snap →
    d.mirror.published.head? = some snap ∧ snap.ddr = d.ddr
  cold : d.mirror.last = none → d.served = none

theorem Served.served_eq_none_iff (h : d.Served) :
    d.served = none ↔ d.ddr = none ∨ d.mirror.last = none := by
  rcases hl : d.mirror.last with _ | snap
  · exact ⟨fun _ => Or.inr rfl, fun _ => h.cold hl⟩
  · obtain ⟨hhead, hddr⟩ := h.stored snap hl
    rw [served, hhead, Option.bind_some, hddr]
    exact ⟨Or.inl, fun hor => hor.resolve_right fun hno => by cases hno⟩

theorem served_republish (ddr : Option DDRAdvert) (vhosts : Finset Str)
    (h : d.mirror.last = none → d.served = none) :
    Served { d with ddr, vhosts, mirror := d.mirror.republish vhosts ddr } := by
  rcases hl : d.mirror.last with _ | last
  · rw [Mirror.Daemon.republish, hl]
    exact ⟨fun snap hsnap => (by rw [hl] at hsnap; cases hsnap), h⟩
  · rw [Mirror.Daemon.republish, hl]
    exact ⟨fun snap hsnap => (by cases hsnap; exact ⟨rfl, rfl⟩), fun hno => by cases hno⟩

theorem Served.resync (h : d.Served) (now : Time) : (d.resync now).Served :=
  served_republish _ d.vhosts h.cold

theorem Served.reload (h : d.Served) (now : Time) : (d.reload now).Served := by
  unfold Daemon.reload
  split
  · exact h
  · split_ifs
    · exact h
    · exact ⟨h.stored, h.cold⟩

theorem served_boot (listeners : Listeners) (file : CertFile) (cur : Certificate)
    (last : Option Time) (vhosts : Finset Str) (mirror : Mirror.Daemon) (s : Start) :
    (boot listeners file cur last vhosts mirror s).Served := by
  constructor
  · dsimp only [boot, Mirror.Daemon.restart]
    split_ifs
    · intro snap hsnap
      cases hsnap
    · rintro snap ⟨⟩
      exact ⟨rfl, rfl⟩
  · dsimp only [boot, served, Mirror.Daemon.restart]
    split_ifs
    · exact fun _ => rfl
    · intro hno
      cases hno

theorem Served.cycle (h : d.Served) {p : Poll} (hddr : p.surroundings.ddr = d.ddr) :
    Served { d with mirror := (d.mirror.cycle newRR p).1 } := by
  rcases @Mirror.Daemon.cycle_cases newRR d.mirror p with ⟨m, hr, heq⟩ | ⟨heq, -⟩
  · obtain ⟨snap, -, rfl⟩ := Mirror.Daemon.refresh_eq_ok hr
    rw [heq]
    refine ⟨fun snap hsnap => ?_, fun hno => by cases hno⟩
    cases hsnap
    exact ⟨rfl, hddr⟩
  · rw [heq]
    exact h

/-- The time at which an event decides on the advert, if it does. -/
def decidedAt (d : Daemon) : Event → Option Time
  | .tick clock => if d.file.mtime ≠ d.last then some clock.sync else none
  | .hangUp clock => some clock.sync
  | _ => none

/-- The time of the last decision on the advert, the first one being that of the start. -/
def lastDecision (now : Time) (past : List (Daemon × Event)) : Time :=
  past.foldl (fun t q => (q.1.decidedAt q.2).getD t) now

theorem lastDecision_concat (now : Time) (past : List (Daemon × Event)) (e : Event) :
    lastDecision now (past ++ [(d, e)]) = (d.decidedAt e).getD (lastDecision now past) := by
  rw [lastDecision, List.foldl_append]
  rfl

/-- The stored advert was decided on for the certificate that is loaded. -/
structure Decided (d : Daemon) (decision : Time) : Prop where
  served : d.Served
  stored : d.ddr = none ↔ d.cur.notAfter ≤ decision

theorem decided_resync (h : d.Served) (now : Time) : (d.resync now).Decided now := by
  refine ⟨h.resync now, ?_⟩
  rw [Daemon.resync, valid]
  by_cases hv : now < d.cur.notAfter
  · simp [hv]
  · simp [hv, not_lt.mp hv]

theorem Decided.step {decision : Time} (h : d.Decided decision) (e : Event) :
    (d.step newRR e).Decided ((d.decidedAt e).getD decision) := by
  cases e with
  | tick clock =>
    change (d.tick clock).Decided _
    unfold tick decidedAt
    dsimp only
    by_cases hm : d.file.mtime ≠ d.last
    · rw [if_pos hm, if_pos hm]
      exact decided_resync
        (Served.reload (d := { d with last := d.file.mtime }) ⟨h.served.stored, h.served.cold⟩ _) _
    · rw [if_neg hm, if_neg hm]
      exact h
  | hangUp clock => exact decided_resync (h.served.reload clock.load) clock.sync
  | change file => exact ⟨⟨h.served.stored, h.served.cold⟩, h.stored⟩
  | cycle p => exact ⟨h.served.cycle rfl, h.stored⟩
  | vhosts set => exact ⟨served_republish d.ddr set h.served.cold, h.stored⟩

/-- The advert is withdrawn by a tick after the expiry. -/
def Withdraws (d : Daemon) (clock : Clock) : Prop :=
  (d.tick clock).cur.notAfter < clock.start → (d.tick clock).served = none

/-- A tick after the expiry finds the file changed, or the advert was last decided on after the
expiry as well, or nothing is published yet. -/
def Notices (decision : Time) (d : Daemon) (clock : Clock) : Prop :=
  d.cur.notAfter < clock.start →
    d.file.mtime ≠ d.last ∨ d.cur.notAfter ≤ decision ∨ d.mirror.last = none

theorem Decided.withdraws_iff {decision : Time} (h : d.Decided decision) (clock : Clock) :
    d.Withdraws clock ↔ d.Notices decision clock := by
  unfold Withdraws Notices
  by_cases hm : d.file.mtime ≠ d.last
  · refine ⟨fun _ _ => Or.inl hm, fun _ hexp => ?_⟩
    have htick := @Decided.step readLine d decision h (.tick clock)
    rw [decidedAt, if_pos hm] at htick
    change (d.tick clock).Decided clock.sync at htick
    refine htick.served.served_eq_none_iff.mpr (Or.inl (htick.stored.mpr ?_))
    exact hexp.le.trans (clock.start_le.trans clock.load_le)
  · rw [tick, if_neg hm, h.served.served_eq_none_iff, h.stored]
    exact forall_congr' fun _ => (or_iff_right hm).symm

/-- The advert is withdrawn at every tick after the expiry of the certificate exactly if every such
tick finds the file changed, or the advert decided on after the expiry already. -/
theorem withdrawn_iff (newRR : NewRR) (listeners : Listeners) (file : CertFile)
    (cur : Certificate) (last : Option Time) (vhosts : Finset Str) (mirror : Mirror.Daemon)
    (s : Start) (now : Time) (es : List Event) :
    Runs.Always (step newRR) (start listeners file cur last vhosts mirror s now)
        (fun _ d e => ∀ clock, e = .tick clock → d.Withdraws clock) es ↔
      Runs.Always (step newRR) (start listeners file cur last vhosts mirror s now)
        (fun past d e => ∀ clock, e = .tick clock → d.Notices (lastDecision now past) clock)
        es := by
  have hdecided : ∀ pre : List Event, Decided (pre.foldl (step newRR)
      (start listeners file cur last vhosts mirror s now)) (lastDecision now
        (Runs.trace (step newRR) (start listeners file cur last vhosts mirror s now) pre)) := by
    intro pre
    refine @Runs.inv_of_always _ _ (step newRR) _
      (fun past d => d.Decided (lastDecision now past)) (fun _ _ _ => True) ?_ ?_ pre
      fun _ _ _ _ => trivial
    · exact decided_resync (served_boot listeners file cur last vhosts mirror s) now
    · intro past d e h _
      rw [lastDecision_concat]
      exact h.step e
  constructor
  · intro h pre e post hes clock he
    exact ((hdecided pre).withdraws_iff clock).mp (h pre e post hes clock he)
  · intro h pre e post hes clock he
    exact ((hdecided pre).withdraws_iff clock).mpr (h pre e post hes clock he)

def certFile : CertFile := ⟨some 0, some ⟨100 * second⟩⟩

/-- A refresh, and a tick half a minute after the certificate has expired. -/
def lapse : List Event :=
  [.cycle { serials := [some 5], now := 0, done := 0
            surroundings := { lister := none, tr := fun _ => .error [], now := 0 } },
    .tick ⟨130 * second, 130 * second, 130 * second, le_rfl, le_rfl⟩]

/-- The advert is still published after the certificate has expired. -/
theorem expired_advert_served :
    (lapse.foldl (step readLine) (start { adn := "dns.test".toList } certFile ⟨100 * second⟩
      (some 0) ∅ {}
        { cfg := { zones := { localZones := ["a.test".toList] } }, now := 0 } 0)).served =
        some { adn := "dns.test.".toList, dot := some { port := 853 } } ∧
    (lapse.foldl (step readLine) (start { adn := "dns.test".toList } certFile ⟨100 * second⟩
      (some 0) ∅ {} { cfg := { zones := { localZones := ["a.test".toList] } }, now := 0 } 0)).cur =
        ⟨100 * second⟩ := by
  decide

end Daemon

end SplitDNS.Encrypted
