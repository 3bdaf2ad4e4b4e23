import OmniKV.Database

/-!
# OmniPaxos

What the server uses of the consensus library. The library itself is not modelled: `OmniPaxos` is
the list of its functions that the server calls, over any type of instances, messages and storages.

What the server relies on when it reads decided entries is `Shows op L t`: the instance `op` runs
the configuration with decided log `L`, and has compacted the part `t.log` of it into the snapshot
`t.build`. A read from an index inside the compacted part starts with the whole snapshot.
-/

namespace OmniKV

structure ClusterConfig where
  configurationId : Nat
  nodes : List Nat
  deriving DecidableEq, Repr

structure ServerConfig where
  pid : Nat
  electionTickTimeout : Nat
  deriving DecidableEq, Repr

structure StopSign where
  nextConfig : ClusterConfig
  metadata : Option Bytes
  deriving DecidableEq, Repr

inductive LogEntry where
  | decided (cmd : KVCommand)
  | undecided (cmd : KVCommand)
  | trimmed (idx : Nat)
  | snapshotted (trimmedIdx : Nat) (snapshot : KVSnapshot)
  | stopSign (stopsign : StopSign) (decided : Bool)

class OPMessage (Msg : Type) where
  getReceiver : Msg → Nat

/-- The calls the server makes. A call that can fail returns an `Option`; a call that takes the
instance mutably returns the new instance. -/
class OmniPaxos (OP : Type) (Msg Storage : outParam Type) where
  getDecidedIdx : OP → Nat
  readDecidedSuffix : OP → Nat → Option (List LogEntry)
  isReconfigured : OP → Option StopSign
  getCurrentLeader : OP → Option (Nat × Bool)
  append : OP → KVCommand → Option OP
  reconfigure : OP → ClusterConfig → Option Bytes → Option OP
  handleIncoming : OP → Msg → OP
  reconnected : OP → Nat → OP
  tick : OP → OP
  outgoingMessages : OP → List Msg × OP
  snapshot : OP → Option Nat → Bool → Option OP
  buildForServer : ClusterConfig → ServerConfig → Storage → Option OP

/-! ## Decided logs -/

/-- The decided log of one configuration: its commands, and the StopSign once it has ended. -/
structure ConfigLog where
  cmds : List KVCommand
  stop : Option StopSign

namespace ConfigLog

def entries (L : ConfigLog) : List LogEntry :=
  L.cmds.map .decided ++ L.stop.toList.map fun stopsign => .stopSign stopsign true

def length (L : ConfigLog) : Nat := L.cmds.length + L.stop.toList.length

/-- The entries of `L` from `i` to `d`, with the part `t.log` compacted. -/
def suffix (L : ConfigLog) (t : SnapshotTree) (i d : Nat) : List LogEntry :=
  if i < t.log.length then .snapshotted t.log.length t.build :: (L.entries.take d).drop t.log.length
  else (L.entries.take d).drop i

/-- The first command that a read from `i` re-applies: a snapshot starts over at `0`. -/
def start (t : SnapshotTree) (i : Nat) : Nat := if i < t.log.length then 0 else i

theorem take_entries {L : ConfigLog} {d : Nat} (h : d ≤ L.cmds.length) :
    L.entries.take d = (L.cmds.take d).map .decided := by
  rw [entries, List.take_append_of_le_length (by simpa using h), List.map_take]

theorem take_entries_stop {L : ConfigLog} {stopsign : StopSign} (h : L.stop = some stopsign) :
    L.entries.take (L.cmds.length + 1) = L.cmds.map .decided ++ [.stopSign stopsign true] := by
  have hlen : L.entries.length ≤ L.cmds.length + 1 := by simp [entries, h]
  rw [List.take_of_length_le hlen, entries, h]
  rfl

end ConfigLog

section Shows

variable {OP Msg Storage : Type} [OmniPaxos OP Msg Storage]

open OmniPaxos (getDecidedIdx readDecidedSuffix isReconfigured)

structure Shows (op : OP) (L : ConfigLog) (t : SnapshotTree) : Prop where
  decided_le : getDecidedIdx op ≤ L.length
  compacted : t.log <+: L.cmds
  compacted_le : t.log.length ≤ getDecidedIdx op
  read : ∀ i, i < getDecidedIdx op →
    readDecidedSuffix op i = some (L.suffix t i (getDecidedIdx op))
  reconfigured : isReconfigured op = if getDecidedIdx op = L.length then L.stop else none

variable {op : OP} {L : ConfigLog} {t : SnapshotTree}

/-- Either only commands are decided, or all of them are and the StopSign too. -/
theorem Shows.decided_cases (h : Shows op L t) :
    getDecidedIdx op ≤ L.cmds.length ∨
      ∃ stopsign, L.stop = some stopsign ∧ getDecidedIdx op = L.cmds.length + 1 := by
  have hle := h.decided_le
  rw [ConfigLog.length] at hle
  cases hs : L.stop with
  | none =>
    simp only [hs, Option.toList_none, List.length_nil] at hle
    exact Or.inl (by omega)
  | some stopsign =>
    simp only [hs, Option.toList_some, List.length_singleton] at hle
    by_cases hd : getDecidedIdx op ≤ L.cmds.length
    · exact Or.inl hd
    · exact Or.inr ⟨stopsign, rfl, by omega⟩

theorem Shows.isReconfigured_none (h : Shows op L t) (hd : getDecidedIdx op ≤ L.cmds.length) :
    isReconfigured op = none := by
  rw [h.reconfigured, ConfigLog.length]
  split
  · rename_i heq
    cases hs : L.stop with
    | none => rfl
    | some stopsign =>
      simp only [hs, Option.toList_some, List.length_singleton] at heq
      omega
  · rfl

end Shows
end OmniKV
