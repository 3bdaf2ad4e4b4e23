import Mathlib.Order.Interval.Finset.Nat
import OmniKV.Lib.Machine
import OmniKV.Server

/-!
# Node

Runs of one node: its instance decides entries and is compacted, clients read, decided entries are
applied, state transfers arrive, and the process is killed and restarted.

Configurations are counted from 0, and `logs c` is the decided log of the one reached after `c`
StopSigns. A `Node` is a server with what it has done: the configuration its instance runs, the
entries of that configuration's log this process has applied, and the database the process found
on disk.

`Synced` says that the applied entries are the first ones and that the database is what they make
of the disk. A call of `handle_decided_entries` keeps it when it does not jump over entries
(`NoJump`); the modules that follow say which runs have only such calls.
-/

namespace OmniKV

open Overlay
open OmniPaxos (getDecidedIdx readDecidedSuffix isReconfigured)

variable {OP Msg Storage : Type} [OmniPaxos OP Msg Storage]

/-! ## Reads of decided entries -/

namespace LogEntry

def isStop : LogEntry → Bool
  | .stopSign _ true => true
  | _ => false

def isSnapshot : LogEntry → Bool
  | .snapshotted _ _ => true
  | _ => false

/-- The indexes of the entries a read from `i` returns. A snapshot stands for all it covers. -/
def covers : Nat → List LogEntry → Finset Nat
  | _, [] => ∅
  | _, .snapshotted idx _ :: rest => Finset.range idx ∪ covers idx rest
  | i, _ :: rest => insert i (covers (i + 1) rest)

theorem covers_plain {es : List LogEntry} (h : ∀ e ∈ es, e.isSnapshot = false) (i : Nat) :
    covers i es = Finset.Ico i (i + es.length) := by
  induction es generalizing i with
  | nil => simp [covers]
  | cons e es ih =>
    have hrest := ih (fun e' he' => h e' (by simp [he'])) (i + 1)
    have hcons : covers i (e :: es) = insert i (covers (i + 1) es) := by
      cases e with
      | snapshotted idx s => cases h (.snapshotted idx s) List.mem_cons_self
      | decided cmd => rfl
      | undecided cmd => rfl
      | trimmed idx => rfl
      | stopSign stopsign decided => rfl
    rw [hcons, hrest]
    ext j
    simp only [Finset.mem_insert, Finset.mem_Ico, List.length_cons]
    omega

end LogEntry

namespace ConfigLog

theorem entries_plain (L : ConfigLog) : ∀ e ∈ L.entries, e.isSnapshot = false := by
  intro e he
  rcases List.mem_append.mp he with he | he
  · obtain ⟨cmd, -, rfl⟩ := List.mem_map.mp he
    rfl
  · obtain ⟨stopsign, -, rfl⟩ := List.mem_map.mp he
    rfl

theorem covers_suffix {L : ConfigLog} {t : SnapshotTree} {i d : Nat} (hd : d ≤ L.length)
    (htd : t.log.length ≤ d) (hi : i < d) :
    LogEntry.covers i (L.suffix t i d) = Finset.Ico (start t i) d := by
  have hlen : (L.entries.take d).length = d := by
    rw [List.length_take, Nat.min_eq_left]
    simpa [entries, length] using hd
  have hplain : ∀ j, ∀ e ∈ (L.entries.take d).drop j, e.isSnapshot = false := fun j e he =>
    L.entries_plain e (List.mem_of_mem_take (List.mem_of_mem_drop he))
  rw [suffix, start]
  split
  · rw [LogEntry.covers, LogEntry.covers_plain (hplain _), List.length_drop, hlen]
    ext j
    simp only [Finset.mem_union, Finset.mem_range, Finset.mem_Ico]
    omega
  · rw [LogEntry.covers_plain (hplain _), List.length_drop, hlen]
    congr 1
    omega

end ConfigLog

def Runs (op : OP) (L : ConfigLog) : Prop := ∃ t, Shows op L t

namespace Server

/-- The entries `handle_decided_entries` reads, if it reads any. -/
def entriesRead (s : Server OP Msg) : List LogEntry :=
  if s.readIdx < getDecidedIdx s.omniPaxos then
    (readDecidedSuffix s.omniPaxos s.readIdx).getD []
  else
    []

def readsStop (s : Server OP Msg) : Bool := s.entriesRead.any LogEntry.isStop

def readsSnapshot (s : Server OP Msg) : Bool := s.entriesRead.head?.any LogEntry.isSnapshot

variable {s : Server OP Msg} {L : ConfigLog} {t : SnapshotTree}

theorem entriesRead_nothing (h : getDecidedIdx s.omniPaxos ≤ s.readIdx) : s.entriesRead = [] :=
  if_neg (Nat.not_lt_of_le h)

theorem entriesRead_eq (hshow : Shows s.omniPaxos L t)
    (hlt : s.readIdx < getDecidedIdx s.omniPaxos) :
    s.entriesRead = L.suffix t s.readIdx (getDecidedIdx s.omniPaxos) := by
  rw [entriesRead, if_pos hlt, hshow.read _ hlt, Option.getD_some]

theorem covers_entriesRead (hshow : Shows s.omniPaxos L t)
    (hlt : s.readIdx < getDecidedIdx s.omniPaxos) :
    LogEntry.covers s.readIdx s.entriesRead =
      Finset.Ico (ConfigLog.start t s.readIdx) (getDecidedIdx s.omniPaxos) := by
  rw [entriesRead_eq hshow hlt]
  exact ConfigLog.covers_suffix hshow.decided_le hshow.compacted_le hlt

theorem readsSnapshot_iff (hshow : Shows s.omniPaxos L t)
    (hlt : s.readIdx < getDecidedIdx s.omniPaxos) :
    s.readsSnapshot = true ↔ s.readIdx < t.log.length := by
  rw [readsSnapshot, entriesRead_eq hshow hlt, ConfigLog.suffix]
  split
  · rename_i hi
    simp [LogEntry.isSnapshot, hi]
  · rename_i hi
    simp only [hi, iff_false, Bool.not_eq_true]
    cases hhead : ((L.entries.take (getDecidedIdx s.omniPaxos)).drop s.readIdx).head? with
    | none => rfl
    | some e =>
      have hmem := List.mem_of_mem_take (List.mem_of_mem_drop (List.mem_of_head? hhead))
      simpa using L.entries_plain e hmem

theorem suffix_isStop {i d : Nat} (hd : d ≤ L.cmds.length) :
    (L.suffix t i d).any LogEntry.isStop = false := by
  have hplain : ∀ j, ((L.entries.take d).drop j).any LogEntry.isStop = false := by
    intro j
    rw [ConfigLog.take_entries hd, ← List.map_drop, List.any_map]
    exact List.any_eq_false.mpr fun cmd _ => by simp [LogEntry.isStop]
  rw [ConfigLog.suffix]
  split
  · rw [List.any_cons, hplain]
    rfl
  · exact hplain _

theorem readsStop_iff {s : Server OP Msg} :
    s.readsStop = true ↔ ∃ stopsign, .stopSign stopsign true ∈ s.entriesRead := by
  rw [readsStop, List.any_eq_true]
  constructor
  · rintro ⟨e, hmem, he⟩
    cases e with
    | stopSign stopsign decided =>
      cases decided with
      | true => exact ⟨stopsign, hmem⟩
      | false => cases he
    | _ => cases he
  · rintro ⟨stopsign, hmem⟩
    exact ⟨_, hmem, rfl⟩

theorem readsStop_nothing (h : getDecidedIdx s.omniPaxos ≤ s.readIdx) : s.readsStop = false := by
  rw [readsStop, entriesRead_nothing h]
  rfl

theorem readsStop_commands (hshow : Shows s.omniPaxos L t)
    (hlt : s.readIdx < getDecidedIdx s.omniPaxos)
    (hd : getDecidedIdx s.omniPaxos ≤ L.cmds.length) : s.readsStop = false := by
  rw [readsStop, entriesRead_eq hshow hlt]
  exact suffix_isStop hd

theorem stopSign_mem_entriesRead {stopsign : StopSign} (hshow : Shows s.omniPaxos L t)
    (hlt : s.readIdx < getDecidedIdx s.omniPaxos) (hstop : L.stop = some stopsign)
    (hd : getDecidedIdx s.omniPaxos = L.cmds.length + 1) :
    .stopSign stopsign true ∈ s.entriesRead := by
  rw [entriesRead_eq hshow hlt, suffix_stop hstop hshow.compacted.length_le (by omega) hd]
  simp

theorem readsStop_stopSign {stopsign : StopSign} (hshow : Shows s.omniPaxos L t)
    (hlt : s.readIdx < getDecidedIdx s.omniPaxos) (hstop : L.stop = some stopsign)
    (hd : getDecidedIdx s.omniPaxos = L.cmds.length + 1) : s.readsStop = true := by
  exact readsStop_iff.mpr ⟨stopsign, stopSign_mem_entriesRead hshow hlt hstop hd⟩

theorem stop_of_mem_entriesRead {stopsign : StopSign} (hshow : Shows s.omniPaxos L t)
    (hmem : .stopSign stopsign true ∈ s.entriesRead) :
    s.readIdx < getDecidedIdx s.omniPaxos ∧ L.stop = some stopsign ∧
      getDecidedIdx s.omniPaxos = L.cmds.length + 1 := by
  have hany := readsStop_iff.mpr ⟨stopsign, hmem⟩
  have hlt : s.readIdx < getDecidedIdx s.omniPaxos := by
    by_contra hle
    rw [readsStop_nothing (Nat.le_of_not_lt hle)] at hany
    cases hany
  have hentries : .stopSign stopsign true ∈ L.entries → L.stop = some stopsign := by
    intro hmem
    simpa [ConfigLog.entries] using hmem
  refine ⟨hlt, ?_, ?_⟩
  · rw [entriesRead_eq hshow hlt, ConfigLog.suffix] at hmem
    split at hmem
    · rcases List.mem_cons.mp hmem with hmem | hmem
      · cases hmem
      · exact hentries (List.mem_of_mem_take (List.mem_of_mem_drop hmem))
    · exact hentries (List.mem_of_mem_take (List.mem_of_mem_drop hmem))
  · rcases hshow.decided_cases with hd | ⟨_, _, hd⟩
    · rw [readsStop_commands hshow hlt hd] at hany
      cases hany
    · exact hd

/-! ## Kills -/

def entryWrites (order : HashOrder String String) : LogEntry → List Database.Write
  | .decided cmd => Database.commandWrites cmd
  | .snapshotted _ snapshot => Database.snapshotWrites order snapshot
  | _ => []

@[simp] theorem entryWrites_stopSign (order : HashOrder String String) (stopsign : StopSign)
    (decided : Bool) : entryWrites order (.stopSign stopsign decided) = [] := rfl

theorem applyEntry_eq_writes (env : Env) (w : World Storage) (s : Server OP Msg) {e : LogEntry}
    (he : e.isStop = false) :
    s.applyEntry env w e =
      .ok { s with database := (entryWrites w.order e).foldl Database.write s.database } := by
  cases e with
  | decided cmd => rw [applyEntry, Database.handleCommand_eq_writes, entryWrites]
  | snapshotted idx snapshot => rw [applyEntry, Database.handleSnapshot_eq_writes, entryWrites]
  | undecided cmd => rfl
  | trimmed idx => rfl
  | stopSign stopsign decided =>
    cases decided with
    | true => cases he
    | false => rfl

theorem updateDatabase_eq_writes (env : Env) (w : World Storage) (s : Server OP Msg)
    {es : List LogEntry} (hes : ∀ e ∈ es, e.isStop = false) :
    s.updateDatabase env w es = .ok { s with
      database := (es.flatMap (entryWrites w.order)).foldl Database.write s.database } := by
  induction es generalizing s with
  | nil => rfl
  | cons e es ih =>
    rw [updateDatabase, applyEntry_eq_writes env w s (hes e List.mem_cons_self)]
    simp only [ih _ fun e' he' => hes e' (List.mem_cons_of_mem _ he'), List.flatMap_cons,
      List.foldl_append]

/-- The writes of a call of `handle_decided_entries`, in order. -/
def pendingWrites (w : World Storage) (s : Server OP Msg) : List Database.Write :=
  s.entriesRead.flatMap (entryWrites w.order)

/-- What a process killed in a call of `handle_decided_entries`, or before it, leaves: the database
on disk, and the messages of the state transfer it has sent. -/
inductive Killed (env : Env) (w : World Storage) (s : Server OP Msg) :
    Database → List (Nat × Message Msg) → Prop where
  | writing (k : Nat) :
      Killed env w s (((s.pendingWrites w).take k).foldl Database.write s.database) []
  | sending {stopsign : StopSign} (j : Nat) : .stopSign stopsign true ∈ s.entriesRead →
      Killed env w s ((s.pendingWrites w).foldl Database.write s.database)
        ((catchups env ((s.pendingWrites w).foldl Database.write s.database)
          stopsign.nextConfig).take j)

/-- All writes of a call that reads the StopSign. -/
theorem pendingWrites_stopSign (env : Env) (w : World Storage) {stopsign : StopSign}
    (hshow : Shows s.omniPaxos L t) (hlt : s.readIdx < getDecidedIdx s.omniPaxos)
    (hstop : L.stop = some stopsign) (hd : getDecidedIdx s.omniPaxos = L.cmds.length + 1) :
    (s.pendingWrites w).foldl Database.write s.database = s.replayed L t := by
  have ht := hshow.compacted.length_le
  have hplain : ∀ e ∈ L.suffix t s.readIdx L.cmds.length, e.isStop = false := fun e he => by
    simpa using List.any_eq_false.mp (suffix_isStop le_rfl) e he
  have hwrites := updateDatabase_eq_writes env w s hplain
  rw [updateDatabase_suffix env w s hshow.compacted ht le_rfl] at hwrites
  have hdb := congrArg Server.database (Except.ok.inj hwrites)
  rw [pendingWrites, entriesRead_eq hshow hlt, suffix_stop hstop ht (by omega) hd,
    List.flatMap_append, List.flatMap_singleton, entryWrites_stopSign, List.append_nil, replayed, hd,
    List.take_of_length_le (Nat.le_succ _)]
  simpa only [List.take_length] using hdb.symm

theorem pendingWrites_touched (hshow : Shows s.omniPaxos L t) (w : World Storage) :
    ∀ x ∈ s.pendingWrites w,
      x.delta.touched ⊆ logKeys (L.cmds.take (getDecidedIdx s.omniPaxos)) := by
  intro x hx
  obtain ⟨e, he, hxe⟩ := List.mem_flatMap.mp hx
  by_cases hlt : s.readIdx < getDecidedIdx s.omniPaxos
  · rw [entriesRead_eq hshow hlt] at he
    have hplain : ∀ e ∈ L.entries.take (getDecidedIdx s.omniPaxos), x ∈ entryWrites w.order e →
        x.delta.touched ⊆ logKeys (L.cmds.take (getDecidedIdx s.omniPaxos)) := by
      intro e he hxe
      rw [ConfigLog.entries, List.take_append] at he
      rcases List.mem_append.mp he with he | he
      · rw [← List.map_take] at he
        obtain ⟨cmd, hcmd, rfl⟩ := List.mem_map.mp he
        intro k hk
        have hkc := Database.commandWrites_touched x hxe hk
        exact Delta.mem_touched_prod.mpr ⟨_, List.mem_map_of_mem hcmd, hkc⟩
      · obtain ⟨stopsign, -, rfl⟩ := List.mem_map.mp (List.mem_of_mem_take he)
        cases hxe
    rw [ConfigLog.suffix] at he
    split at he
    · rcases List.mem_cons.mp he with rfl | he
      · -- the snapshot stands for a part of the decided commands
        obtain ⟨rest, hrest⟩ := hshow.compacted
        have hkeys := Database.snapshotWrites_touched t.build_disjoint x hxe
        have hsplit : L.cmds.take (getDecidedIdx s.omniPaxos) =
            t.log ++ rest.take (getDecidedIdx s.omniPaxos - t.log.length) := by
          rw [← hrest, List.take_append, List.take_of_length_le hshow.compacted_le]
        rw [t.build_delta] at hkeys
        rw [hsplit, logKeys_append]
        exact hkeys.trans Set.subset_union_left
      · exact hplain e (List.mem_of_mem_drop he) hxe
    · exact hplain e (List.mem_of_mem_drop he) hxe
  · rw [entriesRead_nothing (Nat.le_of_not_lt hlt)] at he
    cases he

/-- A kill tears the database at most on the keys of the decided commands. -/
theorem Killed.eqOn {env : Env} {w : World Storage} {db : Database}
    {sends : List (Nat × Message Msg)} (hshow : Shows s.omniPaxos L t)
    (h : s.Killed env w db sends) :
    Set.EqOn db.get s.database.get (logKeys (L.cmds.take (getDecidedIdx s.omniPaxos)))ᶜ := by
  have hwithin : ∀ ws : List Database.Write, (∀ x ∈ ws, x ∈ s.pendingWrites w) →
      Set.EqOn (ws.foldl Database.write s.database).get s.database.get
        (logKeys (L.cmds.take (getDecidedIdx s.omniPaxos)))ᶜ := by
    intro ws hws
    rw [Database.get_writes]
    refine Delta.prod_act_eqOn (fun a ha => ?_) s.database.get
    obtain ⟨x, hx, rfl⟩ := List.mem_map.mp ha
    exact pendingWrites_touched hshow w x (hws x hx)
  cases h with
  | writing k => exact hwithin _ fun x hx => List.mem_of_mem_take hx
  | sending j _ => exact hwithin _ fun x hx => hx

end Server

/-! ## Steps of a node -/

structure Node (OP Msg : Type) where
  server : Server OP Msg
  conf : Nat
  applied : Finset Nat
  boot : Database

/-- What happens to a node. A restart carries what the killed process had sent of a state
transfer. -/
inductive Event (Msg Storage : Type) where
  | advance
  | get (key : String)
  | handle (w : World Storage)
  | catchup (w : World Storage) (kvList : List (String × String))
  | restart (sends : List (Nat × Message Msg))

namespace Node

/-- The entries applied once a call has applied what it reads. -/
def covered (n : Node OP Msg) : Finset Nat :=
  n.applied ∪ LogEntry.covers n.server.readIdx n.server.entriesRead

theorem covered_nothing {n : Node OP Msg}
    (h : getDecidedIdx n.server.omniPaxos ≤ n.server.readIdx) : n.covered = n.applied := by
  rw [covered, Server.entriesRead_nothing h, LogEntry.covers, Finset.union_empty]

def afterHandle (n : Node OP Msg) (s' : Server OP Msg) : Node OP Msg :=
  if n.server.readsStop then { n with server := s', conf := n.conf + 1, applied := ∅ }
  else { n with server := s', applied := n.covered }

@[simp] theorem afterHandle_server (n : Node OP Msg) (s' : Server OP Msg) :
    (n.afterHandle s').server = s' := by
  unfold afterHandle
  split <;> rfl

@[simp] theorem afterHandle_boot (n : Node OP Msg) (s' : Server OP Msg) :
    (n.afterHandle s').boot = n.boot := by
  unfold afterHandle
  split <;> rfl

theorem afterHandle_conf (n : Node OP Msg) (s' : Server OP Msg) :
    (n.afterHandle s').conf = if n.server.readsStop then n.conf + 1 else n.conf := by
  unfold afterHandle
  split <;> rfl

inductive Step (env : Env) (logs : Nat → ConfigLog) :
    Node OP Msg → Event Msg Storage → Node OP Msg → Prop where
  | advance {n : Node OP Msg} {op : OP} : Runs op (logs n.conf) →
      getDecidedIdx n.server.omniPaxos ≤ getDecidedIdx op →
      Step env logs n .advance { n with server := { n.server with omniPaxos := op } }
  | get {n : Node OP Msg} {w : World Storage} {key : String} {s' : Server OP Msg} :
      n.server.handleMsg env w (.apiRequest (.get key)) = .ok s' →
      Step env logs n (.get key) { n with server := s' }
  | handle {n : Node OP Msg} {w : World Storage} {s' : Server OP Msg} :
      n.server.handleDecidedEntries env w = .ok s' →
      (n.server.readsStop = true → Runs s'.omniPaxos (logs (n.conf + 1))) →
      Step env logs n (.handle w) (n.afterHandle s')
  | catchup {n : Node OP Msg} {w : World Storage} {kvList : List (String × String)}
      {s' : Server OP Msg} : n.server.handleMsg env w (.stateCatchup kvList) = .ok s' →
      Step env logs n (.catchup w kvList) { n with server := s' }
  | restart {n : Node OP Msg} {w : World Storage} {api : Except QueryError StatefulSet}
      {restarted : Bool} {op : OP} {s' : Server OP Msg} {db : Database}
      {sends : List (Nat × Message Msg)} : n.server.Killed env w db sends →
      (Server.initial env api op db).recover restarted = .ok s' →
      Runs s'.omniPaxos (logs 0) → getDecidedIdx s'.omniPaxos = getDecidedIdx op →
      Step env logs n (.restart sends) { server := s', conf := 0, applied := ∅, boot := db }

/-- A node from its first start on, with the database `B` on disk. -/
def machine (env : Env) (logs : Nat → ConfigLog) (B : Database) :
    Machine (Node OP Msg) (Event Msg Storage) where
  init n := ∃ (api : Except QueryError StatefulSet) (op : OP), Runs op (logs 0) ∧
    n = { server := Server.initial env api op B, conf := 0, applied := ∅, boot := B }
  step := Step env logs

/-! ## Nodes in step with their log -/

/-- The commands of the configurations before `c`. -/
def history (logs : Nat → ConfigLog) : Nat → List KVCommand
  | 0 => []
  | c + 1 => history logs c ++ (logs c).cmds

/-- The commands a node has applied, over all configurations, when the applied entries of its
configuration are the first ones. -/
def appliedCmds (logs : Nat → ConfigLog) (n : Node OP Msg) : List KVCommand :=
  history logs n.conf ++ (logs n.conf).cmds.take n.applied.card

/-- The decided index has not passed `last_decided_idx`, or every entry before `last_decided_idx` is
applied, or a read from there starts with a snapshot. -/
def NoJump (n : Node OP Msg) : Prop :=
  getDecidedIdx n.server.omniPaxos ≤ n.server.lastDecidedIdx ∨
    n.server.lastDecidedIdx ≤ n.applied.card ∨ n.server.readsSnapshot = true

section Transitions

variable (t : Machine.Transition (Node OP Msg) (Event Msg Storage))

def JumpsNot : Prop := ∀ w, t.event = .handle w → t.before.NoJump

/-- A state transfer that comes in lists what the database holds. -/
def CatchupMatches : Prop :=
  ∀ w kvList, t.event = .catchup w kvList → t.before.server.database.Lists kvList

end Transitions

structure Prefixed (logs : Nat → ConfigLog) (n : Node OP Msg) : Prop where
  runs : Runs n.server.omniPaxos (logs n.conf)
  applied : n.applied = Finset.range n.applied.card
  applied_le : n.applied.card ≤ getDecidedIdx n.server.omniPaxos
  idx : n.server.lastDecidedIdx = n.applied.card ∨ n.applied.card = 0

structure Synced (logs : Nat → ConfigLog) (n : Node OP Msg) : Prop extends Prefixed logs n where
  database : n.server.database = n.boot.applyCommands (n.appliedCmds logs)

/-- Applying commands `a` to `d` to a database that has applied the first `m`, with `a ≤ m`. -/
theorem applyCommands_again (db : Database) (cmds : List KVCommand) {a m d : Nat} (ham : a ≤ m)
    (hmd : m ≤ d) : (db.applyCommands (cmds.take m)).applyCommands ((cmds.take d).drop a) =
      db.applyCommands (cmds.take d) := by
  have hm : cmds.take m = cmds.take a ++ ((cmds.take d).drop a).take (m - a) := by
    rw [List.take_drop, List.take_take, Nat.add_sub_cancel' ham, Nat.min_eq_left hmd]
    conv_lhs => rw [← List.take_append_drop a (cmds.take m), List.take_take, Nat.min_eq_left ham]
  have hd : cmds.take d = cmds.take a ++ (cmds.take d).drop a := by
    conv_lhs => rw [← List.take_append_drop a (cmds.take d), List.take_take,
      Nat.min_eq_left (Nat.le_trans ham hmd)]
  have habsorb := (db.applyCommands (cmds.take a)).applyCommands_absorb ((cmds.take d).drop a)
    (i := m - a) (j := d) (by omega)
  have hall : ((cmds.take d).drop a).take d = (cmds.take d).drop a := by
    apply List.take_of_length_le
    rw [List.length_drop, List.length_take]
    omega
  rw [hall] at habsorb
  rw [hm, Database.applyCommands_append, habsorb, ← Database.applyCommands_append, ← hd]

variable {env : Env} {logs : Nat → ConfigLog} {n n' : Node OP Msg}

/-- What a call without a jump covers, and where the replay starts. -/
theorem Prefixed.covered (h : Prefixed logs n) {t : SnapshotTree}
    (hshow : Shows n.server.omniPaxos (logs n.conf) t) (hjump : n.NoJump)
    (hlt : n.server.readIdx < getDecidedIdx n.server.omniPaxos) :
    ConfigLog.start t n.server.readIdx ≤ n.applied.card ∧
      n.covered = Finset.range (getDecidedIdx n.server.omniPaxos) := by
  have hstart : ConfigLog.start t n.server.readIdx ≤ n.applied.card := by
    unfold ConfigLog.start
    split
    · exact Nat.zero_le _
    · rename_i hsnap
      have hread := Server.readIdx_of_lt hlt
      rcases hjump with hjump | hjump | hjump
      · omega
      · omega
      · exact absurd ((Server.readsSnapshot_iff hshow hlt).mp hjump) hsnap
  refine ⟨hstart, ?_⟩
  rw [Node.covered, Server.covers_entriesRead hshow hlt, h.applied]
  have hle := h.applied_le
  ext j
  simp only [Finset.mem_union, Finset.mem_range, Finset.mem_Ico]
  omega

theorem Synced.replayed (h : Synced logs n) {t : SnapshotTree}
    (hshow : Shows n.server.omniPaxos (logs n.conf) t) (hjump : n.NoJump)
    (hlt : n.server.readIdx < getDecidedIdx n.server.omniPaxos) :
    n.server.replayed (logs n.conf) t = n.boot.applyCommands
      (history logs n.conf ++ (logs n.conf).cmds.take (getDecidedIdx n.server.omniPaxos)) := by
  have hstart := (h.toPrefixed.covered hshow hjump hlt).1
  rw [Server.replayed, h.database, appliedCmds, Database.applyCommands_append,
    applyCommands_again _ _ hstart h.applied_le, ← Database.applyCommands_append]

theorem Step.answer (w : World Storage) (key : String) :
    Step env logs n (.get key) { n with
      server := n.server.send 0 (.apiResponse (.get key (n.server.database.get key))) } :=
  .get (Server.handleMsg_get env w n.server key)

theorem Step.nothing (w : World Storage)
    (hle : getDecidedIdx n.server.omniPaxos ≤ n.server.readIdx) :
    Step env logs n (.handle w)
      { n with server := { n.server with lastDecidedIdx := n.server.readIdx } } := by
  have hstop := Server.readsStop_nothing hle
  have hs : Step env logs n (.handle w) (n.afterHandle _) :=
    .handle (Server.handleDecidedEntries_nothing env w hle)
      (fun h => by rw [hstop] at h; cases h)
  rw [afterHandle, hstop, covered_nothing hle] at hs
  exact hs

/-- A call that reads commands only, as a step. -/
theorem Step.commands (w : World Storage) {t : SnapshotTree}
    (hshow : Shows n.server.omniPaxos (logs n.conf) t)
    (hlt : n.server.readIdx < getDecidedIdx n.server.omniPaxos)
    (hd : getDecidedIdx n.server.omniPaxos ≤ (logs n.conf).cmds.length) :
    Step env logs n (.handle w) { n with
      server := { n.server with
        database := n.server.replayed (logs n.conf) t
        lastDecidedIdx := getDecidedIdx n.server.omniPaxos }.send 0
          (.apiResponse (.decided (getDecidedIdx n.server.omniPaxos)))
      applied := n.covered } := by
  have hstop := Server.readsStop_commands hshow hlt hd
  have hs : Step env logs n (.handle w) (n.afterHandle _) :=
    .handle (Server.handleDecidedEntries_commands env w hshow hlt hd)
      (fun h => by rw [hstop] at h; cases h)
  rw [afterHandle, hstop] at hs
  exact hs

/-- A call that reads the StopSign, as a step. -/
theorem Step.stopSign {w : World Storage} {t : SnapshotTree} {stopsign : StopSign}
    {storage : Storage} {op : OP} (hshow : Shows n.server.omniPaxos (logs n.conf) t)
    (hlt : n.server.readIdx < getDecidedIdx n.server.omniPaxos)
    (hstop : (logs n.conf).stop = some stopsign)
    (hd : getDecidedIdx n.server.omniPaxos = (logs n.conf).cmds.length + 1)
    (hstorage : w.openStorage
      (Server.storagePath env ((n.server.currentConfigId + 1) % 2 ^ 64)) = some storage)
    (hbuild : OmniPaxos.buildForServer stopsign.nextConfig n.server.currentConfig storage = some op)
    (hnext : Runs op (logs (n.conf + 1))) :
    Step env logs n (.handle w) { n with
      server := { n.server with
        omniPaxos := op
        network := { sent := n.server.network.sent ++
          Server.catchups env (n.server.replayed (logs n.conf) t) stopsign.nextConfig }
        database := n.server.replayed (logs n.conf) t
        lastDecidedIdx := 0
        currentConfigId := (n.server.currentConfigId + 1) % 2 ^ 64 }.finishDecided
          (getDecidedIdx n.server.omniPaxos)
      conf := n.conf + 1
      applied := ∅ } := by
  have hcall := Server.handleDecidedEntries_swap env hshow hlt hstop hd hstorage hbuild
  have hs : Step env logs n (.handle w) (n.afterHandle _) := .handle hcall fun _ => by
    rw [Server.finishDecided_omniPaxos]
    exact hnext
  rw [afterHandle, Server.readsStop_stopSign hshow hlt hstop hd] at hs
  exact hs

/-- The three outcomes of a call, for the node. -/
theorem afterHandle_cases {w : World Storage} {s' : Server OP Msg} {t : SnapshotTree}
    (hshow : Shows n.server.omniPaxos (logs n.conf) t)
    (h : n.server.handleDecidedEntries env w = .ok s') :
    (getDecidedIdx n.server.omniPaxos ≤ n.server.readIdx ∧
      n.afterHandle s' =
        { n with server := { n.server with lastDecidedIdx := n.server.readIdx } }) ∨
    (n.server.readIdx < getDecidedIdx n.server.omniPaxos ∧
      getDecidedIdx n.server.omniPaxos ≤ (logs n.conf).cmds.length ∧ n.server.readsStop = false ∧
      n.afterHandle s' = { n with
        server := { n.server with
          database := n.server.replayed (logs n.conf) t
          lastDecidedIdx := getDecidedIdx n.server.omniPaxos }.send 0
            (.apiResponse (.decided (getDecidedIdx n.server.omniPaxos)))
        applied := n.covered }) ∨
    (n.server.readIdx < getDecidedIdx n.server.omniPaxos ∧
      getDecidedIdx n.server.omniPaxos = (logs n.conf).cmds.length + 1 ∧
      n.server.readsStop = true ∧
      s'.database = n.server.replayed (logs n.conf) t ∧
      n.afterHandle s' = { n with server := s', conf := n.conf + 1, applied := ∅ }) := by
  cases Server.handleDecidedEntries_cases hshow h with
  | nothing hle =>
    refine Or.inl ⟨hle, ?_⟩
    rw [afterHandle, Server.readsStop_nothing hle, covered_nothing hle]
    rfl
  | commands hlt hd =>
    have hstop := Server.readsStop_commands hshow hlt hd
    refine Or.inr (Or.inl ⟨hlt, hd, hstop, ?_⟩)
    rw [afterHandle, hstop]
    rfl
  | stopSign hlt hss hd hstorage hbuild =>
    have hstop := Server.readsStop_stopSign hshow hlt hss hd
    refine Or.inr (Or.inr ⟨hlt, hd, hstop, Server.finishDecided_database _ _, ?_⟩)
    rw [afterHandle, hstop]
    rfl

theorem Prefixed.handle {w : World Storage} {s' : Server OP Msg} (h : Prefixed logs n)
    (hjump : n.NoJump) (hs : n.server.handleDecidedEntries env w = .ok s')
    (hnext : n.server.readsStop = true → Runs s'.omniPaxos (logs (n.conf + 1))) :
    Prefixed logs (n.afterHandle s') := by
  obtain ⟨t, hshow⟩ := h.runs
  rcases afterHandle_cases hshow hs with ⟨_, heq⟩ | ⟨hlt, _, _, heq⟩ | ⟨_, _, hstop, _, heq⟩
  · rw [heq]
    refine ⟨h.runs, h.applied, h.applied_le, ?_⟩
    have hcard := h.applied_le
    have hidx := h.idx
    show n.server.readIdx = n.applied.card ∨ n.applied.card = 0
    rcases n.server.readIdx_cases with hread | ⟨hread, hzero⟩ <;> omega
  · have hcovered := (h.covered hshow hjump hlt).2
    rw [heq, hcovered]
    refine ⟨h.runs, ?_, ?_, Or.inl ?_⟩
    · show Finset.range _ = Finset.range (Finset.range _).card
      rw [Finset.card_range]
    · show (Finset.range _).card ≤ _
      rw [Finset.card_range]
      exact le_rfl
    · show getDecidedIdx n.server.omniPaxos = (Finset.range _).card
      rw [Finset.card_range]
  · rw [heq]
    exact ⟨hnext hstop, rfl, Nat.zero_le _, Or.inr rfl⟩

theorem Prefixed.step {e : Event Msg Storage} (h : Prefixed logs n) (hs : Step env logs n e n')
    (hjump : JumpsNot ⟨n, e, n'⟩) : Prefixed logs n' := by
  cases hs with
  | advance hruns hle => exact ⟨hruns, h.applied, Nat.le_trans h.applied_le hle, h.idx⟩
  | get hs =>
    rw [Server.handleMsg_get] at hs
    cases hs
    exact ⟨h.runs, h.applied, h.applied_le, h.idx⟩
  | handle hs hnext => exact h.handle (hjump _ rfl) hs hnext
  | catchup hs =>
    rw [Server.handleMsg_stateCatchup] at hs
    cases hs
    exact ⟨h.runs, h.applied, h.applied_le, h.idx⟩
  | restart _ _ hruns _ => exact ⟨hruns, rfl, Nat.zero_le _, Or.inr rfl⟩

theorem Synced.handle {w : World Storage} {s' : Server OP Msg} (h : Synced logs n)
    (hjump : n.NoJump) (hs : n.server.handleDecidedEntries env w = .ok s')
    (hnext : n.server.readsStop = true → Runs s'.omniPaxos (logs (n.conf + 1))) :
    Synced logs (n.afterHandle s') := by
  refine ⟨h.toPrefixed.handle hjump hs hnext, ?_⟩
  obtain ⟨t, hshow⟩ := h.runs
  rcases afterHandle_cases hshow hs with ⟨_, heq⟩ | ⟨hlt, _, _, heq⟩ | ⟨hlt, hd, _, hdb, heq⟩
  · rw [heq]
    exact h.database
  · have hcovered := (h.toPrefixed.covered hshow hjump hlt).2
    rw [heq]
    show n.server.replayed (logs n.conf) t = _
    rw [h.replayed hshow hjump hlt, appliedCmds, hcovered, Finset.card_range]
  · rw [heq]
    show s'.database = n.boot.applyCommands (history logs (n.conf + 1) ++ List.take 0 _)
    rw [hdb, h.replayed hshow hjump hlt, hd, List.take_of_length_le (Nat.le_succ _), List.take_zero,
      List.append_nil, history]

theorem Synced.step {e : Event Msg Storage} (h : Synced logs n) (hs : Step env logs n e n')
    (hjump : JumpsNot ⟨n, e, n'⟩) (hcatchup : CatchupMatches ⟨n, e, n'⟩) : Synced logs n' := by
  have hpre := h.toPrefixed.step hs hjump
  cases hs with
  | advance hruns hle => exact ⟨hpre, h.database⟩
  | get hs =>
    rw [Server.handleMsg_get] at hs
    cases hs
    exact ⟨hpre, h.database⟩
  | handle hs hnext => exact h.handle (hjump _ rfl) hs hnext
  | catchup hs =>
    rw [Server.handleMsg_stateCatchup] at hs
    cases hs
    refine ⟨hpre, Eq.trans ?_ h.database⟩
    exact (Database.handleKv_eq_iff _ _ _ _).mpr (hcatchup _ _ rfl)
  | restart hkilled hrecover hruns hidx =>
    refine ⟨hpre, ?_⟩
    rw [Server.recover_ok hrecover]
    rfl

theorem Synced.init {B : Database} (h : (machine env logs B : Machine (Node OP Msg)
    (Event Msg Storage)).init n) : Synced logs n := by
  obtain ⟨api, op, hruns, rfl⟩ := h
  exact ⟨⟨hruns, rfl, Nat.zero_le _, Or.inr rfl⟩, rfl⟩

theorem Synced.run {B : Database}
    {tr : List (Machine.Transition (Node OP Msg) (Event Msg Storage))}
    (hrun : (machine env logs B).Run tr n) (htr : ∀ t ∈ tr, JumpsNot t ∧ CatchupMatches t) :
    Synced logs n :=
  hrun.invariant (C := fun t => JumpsNot t ∧ CatchupMatches t) (fun _ => Synced.init)
    (fun _ _ _ hI hs hC => hI.step hs hC.1 hC.2) htr

end Node
end OmniKV
