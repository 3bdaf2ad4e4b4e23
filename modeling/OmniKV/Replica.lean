import Mathlib.Data.Finset.Sort
import Mathlib.Data.String.Basic
import OmniKV.Server

/-!
# Replica

A small consensus library to run the server on. A replica knows the log its configuration will
decide, learns from messages how much of it is decided, and tells its peers on each tick. Its
storage is the replica itself, so what a configuration has decided survives a restart.

`Replica.shows` makes every run of a server over replicas a run over instances that show their
configuration's log.
-/

namespace OmniKV

structure ReplicaMsg where
  receiver : Nat
  decidedIdx : Nat
  deriving DecidableEq, Repr

instance : OPMessage ReplicaMsg := ⟨ReplicaMsg.receiver⟩

/-- Iteration in the order of the keys. -/
def HashOrder.sorted : HashOrder String String where
  iter m := (Finset.sort (Finmap.keys m)).filterMap fun k => (m.get k).map fun v => (k, v)
  nodup m := by
    have hkeys : ∀ l : List String, l.Nodup →
        ((l.filterMap fun k => (m.get k).map fun v => (k, v)).map Prod.fst).Nodup := by
      intro l hl
      refine hl.sublist ?_
      induction l with
      | nil => exact List.Sublist.refl _
      | cons k l ih =>
        have hrest := ih hl.of_cons
        cases hk : m.get k with
        | none => simpa [hk] using hrest.cons k
        | some v => simpa [hk] using hrest.cons_cons k
    exact hkeys _ (Finset.sort_nodup _ _)
  mem_iter m k v := by
    simp only [List.mem_filterMap, Finset.mem_sort, Option.map_eq_some_iff, Prod.mk.injEq]
    constructor
    · rintro ⟨k', -, v', hget, rfl, rfl⟩
      exact hget
    · intro hget
      refine ⟨k, ?_, v, hget, rfl, rfl⟩
      exact Finmap.mem_keys.mpr (Finmap.mem_of_lookup_eq_some hget)

structure Replica where
  log : ConfigLog
  decidedIdx : Nat
  compacted : SnapshotTree
  leader : Option Nat
  peers : List Nat
  queue : List ReplicaMsg

namespace Replica

def readDecidedSuffix (r : Replica) (i : Nat) : Option (List LogEntry) :=
  if i < r.decidedIdx then some (r.log.suffix r.compacted i r.decidedIdx) else none

def isReconfigured (r : Replica) : Option StopSign :=
  if r.decidedIdx = r.log.length then r.log.stop else none

/-- A StopSign is not compacted. -/
def snapshot (r : Replica) (idx : Option Nat) : Option Replica :=
  let i := min (idx.getD r.decidedIdx) r.log.cmds.length
  if idx.getD r.decidedIdx ≤ r.decidedIdx then
    some { r with
      compacted := .merge .sorted r.compacted (.create ((r.log.cmds.take i).drop r.compacted.log.length)) }
  else
    none

def buildForServer (config : ClusterConfig) (serverConfig : ServerConfig) (storage : Replica) :
    Option Replica :=
  if serverConfig.pid ∈ config.nodes then
    some { storage with
      leader := none
      peers := config.nodes.filter fun pid => pid ≠ serverConfig.pid
      queue := [] }
  else
    none

end Replica

instance : OmniPaxos Replica ReplicaMsg Replica where
  getDecidedIdx := Replica.decidedIdx
  readDecidedSuffix := Replica.readDecidedSuffix
  isReconfigured := Replica.isReconfigured
  getCurrentLeader r := r.leader.map fun pid => (pid, true)
  append r _ := if r.isReconfigured.isSome then none else some r
  reconfigure r _ _ := if r.isReconfigured.isSome then none else some r
  handleIncoming r msg :=
    { r with decidedIdx := max r.decidedIdx (min msg.decidedIdx r.log.length) }
  reconnected r pid := { r with queue := r.queue ++ [⟨pid, r.decidedIdx⟩] }
  tick r := { r with queue := r.queue ++ r.peers.map fun pid => ⟨pid, r.decidedIdx⟩ }
  outgoingMessages r := (r.queue, { r with queue := [] })
  snapshot r idx _ := r.snapshot idx
  buildForServer := Replica.buildForServer

namespace Replica

theorem shows {r : Replica} (hdecided : r.decidedIdx ≤ r.log.length)
    (hcompacted : r.compacted.log <+: r.log.cmds) (hle : r.compacted.log.length ≤ r.decidedIdx) :
    Shows r r.log r.compacted where
  decided_le := hdecided
  compacted := hcompacted
  compacted_le := hle
  read _ hi := if_pos hi
  reconfigured := rfl

/-- An instance that has compacted nothing. -/
theorem shows_uncompacted {r : Replica} (hcompacted : r.compacted = .create [])
    (hdecided : r.decidedIdx ≤ r.log.length) : Shows r r.log (.create []) := by
  rw [← hcompacted]
  apply shows hdecided
  · rw [hcompacted]
    exact List.nil_prefix
  · rw [hcompacted]
    exact Nat.zero_le _

/-- The replica of a process that has just opened its log. -/
def opened (log : ConfigLog) (decidedIdx : Nat) (compacted : SnapshotTree) : Replica where
  log := log
  decidedIdx := decidedIdx
  compacted := compacted
  leader := none
  peers := [2, 3]
  queue := []

theorem opened_shows {log : ConfigLog} {decidedIdx : Nat} {compacted : SnapshotTree}
    (hdecided : decidedIdx ≤ log.length) (hcompacted : compacted.log <+: log.cmds)
    (hle : compacted.log.length ≤ decidedIdx) :
    Shows (opened log decidedIdx compacted) log compacted :=
  shows hdecided hcompacted hle

end Replica

/-- Three nodes. -/
def sampleNodes (p : Nat) : Env := { nodes := [1, 2, 3], pid := p }

/-- Node 1 of three. -/
def sampleEnv : Env := { nodes := [1, 2, 3], pid := 1 }

def sampleWorld (storage : Replica) : World Replica :=
  { order := .sorted, openStorage := fun _ => some storage, api := .error .client }

def sampleStopSign : StopSign :=
  { nextConfig := { configurationId := 2, nodes := [1, 2, 3] }, metadata := none }

/-- A first configuration that ends, and one that goes on. -/
def sampleLogs : Nat → ConfigLog
  | 0 => { cmds := [.put ⟨"a", "1"⟩], stop := some sampleStopSign }
  | _ => { cmds := [.put ⟨"a", "2"⟩, .put ⟨"b", "2"⟩, .put ⟨"c", "3"⟩], stop := none }

theorem sampleLogs_shows (c : Nat) {d : Nat} (hd : d ≤ (sampleLogs c).length) :
    Shows (Replica.opened (sampleLogs c) d (.create [])) (sampleLogs c) (.create []) :=
  Replica.shows_uncompacted rfl hd

end OmniKV
