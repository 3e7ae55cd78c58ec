import SplitDNS.Model.Snapshot
import SplitDNS.Runs.Basic

/-! # The snapshot builder

The builder publishes snapshots from several goroutines. A refresh and the warm
start read the vhost provider first and take the lock afterwards; a republish
reads it with the lock held. A vhost poll that finds a new set republishes.
One event is one atomic step of one of them.
-/

namespace SplitDNS.Mirror

open Go Model

/-- A refresh or a warm start that has its snapshot and does not hold the lock. -/
inductive Build where
  | built (snap : Snapshot)
  | withVHosts (snap : Snapshot)

/-- What the goroutine that holds the lock does next. -/
inductive Locked where
  | store (snap : Snapshot)
  | clone
  | publish (snap : Snapshot)
  | unlock

/-- The builder with its providers and the goroutines at work on it. At most one of them is in
`locked`, so that no two hold the lock. -/
structure Builder where
  feed : Finset Str := ∅
  ddr : Option DDRAdvert := none
  last : Option Snapshot := none
  published : Option Snapshot := none
  locked : Option Locked := none
  builds : Map ℕ Build := ∅
  republishes : Finset ℕ := ∅

inductive Event where
  | refresh (id : ℕ) (snap : Snapshot)
  | warmStart (id : ℕ) (snap : Snapshot)
  | republish (id : ℕ)
  | poll (id : ℕ) (set : Finset Str)
  | setDDR (ddr : Option DDRAdvert)
  | readVHosts (id : ℕ)
  | lockBuild (id : ℕ)
  | lockRepublish (id : ℕ)
  | proceed

namespace Builder

/-- A refresh or warm start whose snapshot is built, without the vhosts yet. -/
def startBuild (b : Builder) (id : ℕ) (snap : Snapshot) : Option Builder :=
  if id ∈ b.builds then none else some { b with builds := b.builds.insert id (.built snap) }

/-- `ApplyVHosts` or `Republish`, at the lock. -/
def startRepublish (b : Builder) (id : ℕ) : Option Builder :=
  if id ∈ b.republishes then none else some { b with republishes := insert id b.republishes }

def poll (b : Builder) (id : ℕ) (set : Finset Str) : Option Builder :=
  if set = b.feed then some b else startRepublish { b with feed := set } id

/-- `snap.VHosts = b.vhosts()`. -/
def readVHosts (b : Builder) (id : ℕ) : Option Builder :=
  match b.builds.lookup id with
  | some (.built snap) =>
    some { b with builds := b.builds.insert id (.withVHosts { snap with vhosts := b.feed }) }
  | _ => none

def lockBuild (b : Builder) (id : ℕ) : Option Builder :=
  match b.locked, b.builds.lookup id with
  | none, some (.withVHosts snap) =>
    some { b with locked := some (.store snap), builds := b.builds.erase id }
  | _, _ => none

def lockRepublish (b : Builder) (id : ℕ) : Option Builder :=
  if b.locked.isNone ∧ id ∈ b.republishes then
    some { b with locked := some .clone, republishes := b.republishes.erase id }
  else none

def proceed (b : Builder) : Option Builder :=
  match b.locked with
  | none => none
  | some (.store snap) =>
    let snap := { snap with ddr := b.ddr }
    some { b with last := some snap, locked := some (.publish snap) }
  | some .clone =>
    match b.last with
    | none => some { b with locked := some .unlock }
    | some last =>
      let clone := { last with vhosts := b.feed, ddr := b.ddr }
      some { b with last := some clone, locked := some (.publish clone) }
  | some (.publish snap) => some { b with published := some snap, locked := some .unlock }
  | some .unlock => some { b with locked := none }

def step (b : Builder) : Event → Option Builder
  | .refresh id snap => b.startBuild id snap
  | .warmStart id snap => b.startBuild id snap
  | .republish id => b.startRepublish id
  | .poll id set => b.poll id set
  | .setDDR ddr => some { b with ddr := ddr }
  | .readVHosts id => b.readVHosts id
  | .lockBuild id => b.lockBuild id
  | .lockRepublish id => b.lockRepublish id
  | .proceed => b.proceed

def Idle (b : Builder) : Prop := b.locked.isNone ∧ b.builds.entries.isEmpty ∧ b.republishes = ∅

instance (b : Builder) : Decidable b.Idle := inferInstanceAs (Decidable (_ ∧ _))

end Builder

end SplitDNS.Mirror
