import OmniKV.OmniPaxos

/-!
# Server

The server of a node (`server.rs`, with its initial state from `main.rs` and the replica query of
`kubernetes.rs`). A call runs in a `World`: what it finds outside the process. A call that can
panic returns an `Except Panic`.

Messages handed to `Network::send` are kept in the order of the calls, `Network.sent`.

`handleDecidedEntries_cases` says everything `handle_decided_entries` can do on an instance that
shows a decided log: nothing, apply commands, or apply commands and the StopSign. The modules that
follow use it and do not unfold the server again.
-/

namespace OmniKV

/-! ## The replica count -/

structure StatefulSetSpec where
  replicas : Option Int32

structure StatefulSet where
  spec : Option StatefulSetSpec

inductive QueryError where
  | client
  | get
  deriving DecidableEq, Repr

/-- `r as u64` sign-extends, and a missing count is 0. -/
def queryStatefulsetReplicas (api : Except QueryError StatefulSet) : Except QueryError Nat :=
  match api with
  | .error e => .error e
  | .ok ss =>
    .ok (((ss.spec.bind StatefulSetSpec.replicas).map fun r => r.toInt64.toUInt64.toNat).getD 0)

/-! ## Messages and state -/

inductive APIResponse where
  | decided (idx : Nat)
  | get (key : String) (value : Option String)
  deriving DecidableEq, Repr

inductive Message (Msg : Type) where
  | omniPaxosMsg (msg : Msg)
  | apiRequest (cmd : KVCommand)
  | apiResponse (resp : APIResponse)
  | debug (text : String)
  | stateCatchup (kvList : List (String × String))
  | reconnect (pid : Nat)
  deriving DecidableEq, Repr

structure Network (Msg : Type) where
  sent : List (Nat × Message Msg)

def Network.send {Msg : Type} (n : Network Msg) (receiver : Nat) (msg : Message Msg) :
    Network Msg :=
  { sent := n.sent ++ [(receiver, msg)] }

/-- The process constants `NODES` and `PID`. -/
structure Env where
  nodes : List Nat
  pid : Nat

def Env.peers (env : Env) : List Nat := env.nodes.filter fun pid => pid ≠ env.pid

/-- What a call finds outside: the order in which hash maps are iterated, the storage found at a
path (`none` if it cannot be created or opened), the answer of the Kubernetes API. -/
structure World (Storage : Type) where
  order : HashOrder String String
  openStorage : String → Option Storage
  api : Except QueryError StatefulSet

inductive Panic where
  | appendRefused
  | capacityOverflow
  | reconfigureRefused
  | unimplemented
  | notUtf8
  | storage
  | readDecidedSuffix
  | build
  | snapshot
  deriving DecidableEq, Repr

structure Server (OP Msg : Type) where
  omniPaxos : OP
  network : Network Msg
  database : Database
  lastDecidedIdx : Nat
  currentNumReplicas : Nat
  currentConfig : ServerConfig
  currentConfigId : Nat
  stopSignTimeot : Nat

variable {OP Msg Storage : Type} [OmniPaxos OP Msg Storage]

open OmniPaxos (getDecidedIdx readDecidedSuffix isReconfigured)

/-! ## main -/

def initialNumReplicas (api : Except QueryError StatefulSet) : Nat :=
  match queryStatefulsetReplicas api with
  | .ok replicas => if replicas > 3 then replicas else 3
  | .error _ => 3

/-- `(1..=numReplicas).collect()`, for a `numReplicas` of at most `maxWords`. -/
def replicaList (numReplicas : Nat) : List Nat := List.range' 1 numReplicas

/-- A vector has at most `isize::MAX` bytes, here of eight for each element. `collect` panics on more:
`main` then never builds an instance, and the debug arm never calls `reconfigure`. A negative replica
count, cast to `u64`, is more. -/
def maxWords : Nat := (2 ^ 63 - 1) / 8

def initialClusterConfig (api : Except QueryError StatefulSet) : ClusterConfig :=
  { configurationId := 1, nodes := replicaList (initialNumReplicas api) }

def initialServerConfig (env : Env) : ServerConfig := { pid := env.pid, electionTickTimeout := 5 }

namespace Server

/-- The server `main` starts, over the instance it has built and the database found on disk. -/
def initial (env : Env) (api : Except QueryError StatefulSet) (op : OP) (database : Database) :
    Server OP Msg where
  omniPaxos := op
  network := { sent := [] }
  database := database
  lastDecidedIdx := 0
  currentNumReplicas := initialNumReplicas api
  currentConfig := initialServerConfig env
  currentConfigId := 1
  stopSignTimeot := 0

def send (s : Server OP Msg) (receiver : Nat) (msg : Message Msg) : Server OP Msg :=
  { s with network := s.network.send receiver msg }

/-- Send `msg` to each of `pids`. -/
def sendAll (s : Server OP Msg) (pids : List Nat) (msg : Message Msg) : Server OP Msg :=
  pids.foldl (fun s pid => s.send pid msg) s

/-! ## Incoming messages -/

/-- The debug arm up to its call of `reconfigure`: the server, and the configuration to propose, whose
nodes a vector may be too small for. -/
def checkReplicas (env : Env) (w : World Storage) (s : Server OP Msg) :
    Server OP Msg × Option ClusterConfig :=
  if (OmniPaxos.getCurrentLeader s.omniPaxos).map Prod.fst = some env.pid then
    match queryStatefulsetReplicas w.api with
    | .error _ => (s, none)
    | .ok activeReplicas =>
      if s.currentNumReplicas ≠ activeReplicas then
        if s.stopSignTimeot % 5 = 0 then
          ({ s with stopSignTimeot := 0, currentNumReplicas := activeReplicas },
            some { configurationId := (s.currentConfigId + 1) % 2 ^ 32
                   nodes := replicaList activeReplicas })
        else
          ({ s with stopSignTimeot := (s.stopSignTimeot + 1) % 2 ^ 64 }, none)
      else
        (s, none)
  else
    match queryStatefulsetReplicas w.api with
    | .error _ => (s, none)
    | .ok activeReplicas =>
      -- a follower only takes note of the count
      if s.currentNumReplicas ≠ activeReplicas then
        ({ s with currentNumReplicas := activeReplicas }, none)
      else
        (s, none)

def handleMsg (env : Env) (w : World Storage) (s : Server OP Msg) :
    Message Msg → Except Panic (Server OP Msg)
  | .apiRequest (.get key) =>
    let (database, value) := s.database.handleCommand (.get key)
    .ok ({ s with database := database }.send 0 (.apiResponse (.get key value)))
  | .apiRequest cmd =>
    match OmniPaxos.append s.omniPaxos cmd with
    | none => .error .appendRefused
    | some op => .ok { s with omniPaxos := op }
  | .omniPaxosMsg msg => .ok { s with omniPaxos := OmniPaxos.handleIncoming s.omniPaxos msg }
  | .stateCatchup kvList => .ok { s with database := s.database.handleKv w.order kvList }
  | .debug _ =>
    match s.checkReplicas env w with
    | (s, none) => .ok s
    | (s, some newConfiguration) =>
      if newConfiguration.nodes.length ≤ maxWords then
        match OmniPaxos.reconfigure s.omniPaxos newConfiguration none with
        | none => .error .reconfigureRefused
        | some op => .ok { s with omniPaxos := op }
      else
        .error .capacityOverflow
  | .reconnect pid =>
    if (OmniPaxos.getCurrentLeader s.omniPaxos).map Prod.fst ≠ some env.pid then
      .ok { s with omniPaxos := OmniPaxos.reconnected s.omniPaxos pid }
    else
      .ok s
  | .apiResponse _ => .error .unimplemented

def debugHeartbeat (env : Env) (s : Server OP Msg) : Server OP Msg :=
  s.sendAll env.peers (.debug ("Heartbeat from node " ++ toString env.pid))

/-! ## Decided entries -/

def storagePath (env : Env) (configId : Nat) : String :=
  "/data/omnipaxos_" ++ toString env.pid ++ "/config" ++ toString configId

/-- The state transfer of the StopSign arm, made by the nodes of the next configuration. -/
def broadcastState (env : Env) (newConfiguration : ClusterConfig) (s : Server OP Msg) :
    Except Panic (Server OP Msg) :=
  if env.pid ∈ newConfiguration.nodes then
    match s.database.getAllKeyValues with
    | .error _ => .error .notUtf8
    | .ok kvPairs => .ok (s.sendAll env.peers (.stateCatchup kvPairs))
  else
    .ok s

def applyStopSign (env : Env) (w : World Storage) (s : Server OP Msg) (stopsign : StopSign) :
    Except Panic (Server OP Msg) :=
  let s := { s with currentConfigId := (s.currentConfigId + 1) % 2 ^ 64 }
  let newConfiguration := stopsign.nextConfig
  match s.broadcastState env newConfiguration with
  | .error p => .error p
  | .ok s =>
    match w.openStorage (storagePath env s.currentConfigId) with
    | none => .error .storage
    | some storage =>
      -- the final log is read to be printed
      match readDecidedSuffix s.omniPaxos 0 with
      | none => .error .readDecidedSuffix
      | some _ =>
        match OmniPaxos.buildForServer newConfiguration s.currentConfig storage with
        | none => .error .build
        | some newOmnipaxos => .ok { s with omniPaxos := newOmnipaxos, lastDecidedIdx := 0 }

def applyEntry (env : Env) (w : World Storage) (s : Server OP Msg) :
    LogEntry → Except Panic (Server OP Msg)
  | .decided cmd => .ok { s with database := (s.database.handleCommand cmd).1 }
  | .snapshotted _ snapshot =>
    .ok { s with database := s.database.handleSnapshot w.order snapshot }
  | .stopSign stopsign true => s.applyStopSign env w stopsign
  | _ => .ok s

def updateDatabase (env : Env) (w : World Storage) (s : Server OP Msg) :
    List LogEntry → Except Panic (Server OP Msg)
  | [] => .ok s
  | entry :: rest =>
    match s.applyEntry env w entry with
    | .error p => .error p
    | .ok s => updateDatabase env w s rest

/-- The index `handle_decided_entries` reads from: a zero decided index resets it. -/
def readIdx (s : Server OP Msg) : Nat :=
  if getDecidedIdx s.omniPaxos < s.lastDecidedIdx ∧ getDecidedIdx s.omniPaxos = 0 then 0
  else s.lastDecidedIdx

/-- The end of `handle_decided_entries`. By now `omniPaxos` may be the next instance, while `d` is
still the decided index of the one the call started with. -/
def finishDecided (s : Server OP Msg) (d : Nat) : Server OP Msg :=
  match isReconfigured s.omniPaxos with
  | some _ => s
  | none => { s with lastDecidedIdx := d }.send 0 (.apiResponse (.decided d))

def handleDecidedEntries (env : Env) (w : World Storage) (s : Server OP Msg) :
    Except Panic (Server OP Msg) :=
  let newDecidedIdx := getDecidedIdx s.omniPaxos
  let s := { s with lastDecidedIdx := s.readIdx }
  if s.lastDecidedIdx < newDecidedIdx then
    match readDecidedSuffix s.omniPaxos s.lastDecidedIdx with
    | none => .error .readDecidedSuffix
    | some decidedEntries =>
      match s.updateDatabase env w decidedEntries with
      | .error p => .error p
      | .ok s => .ok (s.finishDecided newDecidedIdx)
  else
    .ok s

/-! ## run -/

/-- What `run` does before its loop: a process that finds the restart flag compacts its log. -/
def recover (restarted : Bool) (s : Server OP Msg) : Except Panic (Server OP Msg) :=
  if restarted then
    match OmniPaxos.snapshot s.omniPaxos (some (getDecidedIdx s.omniPaxos)) true with
    | none => .error .snapshot
    | some op => .ok { s with omniPaxos := op }
  else
    .ok s

/-! ## What the calls do -/

@[simp] theorem send_omniPaxos (s : Server OP Msg) (r : Nat) (m : Message Msg) :
    (s.send r m).omniPaxos = s.omniPaxos := rfl
@[simp] theorem send_database (s : Server OP Msg) (r : Nat) (m : Message Msg) :
    (s.send r m).database = s.database := rfl
@[simp] theorem send_lastDecidedIdx (s : Server OP Msg) (r : Nat) (m : Message Msg) :
    (s.send r m).lastDecidedIdx = s.lastDecidedIdx := rfl
@[simp] theorem send_currentConfigId (s : Server OP Msg) (r : Nat) (m : Message Msg) :
    (s.send r m).currentConfigId = s.currentConfigId := rfl
@[simp] theorem send_sent (s : Server OP Msg) (r : Nat) (m : Message Msg) :
    (s.send r m).network.sent = s.network.sent ++ [(r, m)] := rfl

theorem handleMsg_get (env : Env) (w : World Storage) (s : Server OP Msg) (key : String) :
    s.handleMsg env w (.apiRequest (.get key)) =
      .ok (s.send 0 (.apiResponse (.get key (s.database.get key)))) := rfl

theorem handleMsg_stateCatchup (env : Env) (w : World Storage) (s : Server OP Msg)
    (kvList : List (String × String)) :
    s.handleMsg env w (.stateCatchup kvList) =
      .ok { s with database := s.database.handleKv w.order kvList } := rfl

theorem recover_false (s : Server OP Msg) : s.recover false = .ok s := rfl

theorem recover_ok {restarted : Bool} {s s' : Server OP Msg} (h : s.recover restarted = .ok s') :
    s' = { s with omniPaxos := s'.omniPaxos } := by
  unfold recover at h
  split at h
  · split at h
    · cases h
    · cases h
      rfl
  · cases h
    rfl

theorem readIdx_cases (s : Server OP Msg) :
    s.readIdx = s.lastDecidedIdx ∨ s.readIdx = 0 ∧ getDecidedIdx s.omniPaxos = 0 := by
  unfold readIdx
  split
  · rename_i h
    exact Or.inr ⟨rfl, h.2⟩
  · exact Or.inl rfl

theorem readIdx_of_lt {s : Server OP Msg} (h : s.readIdx < getDecidedIdx s.omniPaxos) :
    s.readIdx = s.lastDecidedIdx := by
  rcases s.readIdx_cases with hr | ⟨hr, hz⟩ <;> omega

theorem finishDecided_omniPaxos (s : Server OP Msg) (d : Nat) :
    (s.finishDecided d).omniPaxos = s.omniPaxos := by
  unfold finishDecided
  split <;> rfl

theorem finishDecided_database (s : Server OP Msg) (d : Nat) :
    (s.finishDecided d).database = s.database := by
  unfold finishDecided
  split <;> rfl

theorem sendAll_eq (s : Server OP Msg) (pids : List Nat) (m : Message Msg) :
    s.sendAll pids m =
      { s with network := { sent := s.network.sent ++ pids.map fun pid => (pid, m) } } := by
  induction pids generalizing s with
  | nil => simp [sendAll]
  | cons pid pids ih =>
    rw [sendAll, List.foldl_cons, ← sendAll, ih]
    simp [send, Network.send]

theorem updateDatabase_append (env : Env) (w : World Storage) (s : Server OP Msg)
    (es es' : List LogEntry) :
    s.updateDatabase env w (es ++ es') =
      match s.updateDatabase env w es with
      | .error p => .error p
      | .ok s => s.updateDatabase env w es' := by
  induction es generalizing s with
  | nil => rfl
  | cons entry rest ih =>
    simp only [List.cons_append, updateDatabase]
    cases s.applyEntry env w entry with
    | error p => rfl
    | ok s => exact ih s

theorem updateDatabase_decided (env : Env) (w : World Storage) (s : Server OP Msg)
    (cmds : List KVCommand) :
    s.updateDatabase env w (cmds.map .decided) =
      .ok { s with database := s.database.applyCommands cmds } := by
  induction cmds generalizing s with
  | nil => rfl
  | cons cmd cmds ih =>
    simp only [List.map_cons, updateDatabase, applyEntry]
    exact ih _

/-- The state transfer of a StopSign, as messages. -/
def catchups (env : Env) (db : Database) (newConfiguration : ClusterConfig) :
    List (Nat × Message Msg) :=
  if env.pid ∈ newConfiguration.nodes then
    match db.getAllKeyValues with
    | .error _ => []
    | .ok kvPairs => env.peers.map fun pid => (pid, .stateCatchup kvPairs)
  else
    []

theorem broadcastState_eq (env : Env) (newConfiguration : ClusterConfig) (s : Server OP Msg) :
    s.broadcastState env newConfiguration = .ok { s with
      network := { sent := s.network.sent ++ catchups env s.database newConfiguration } } := by
  obtain ⟨kvPairs, hall, -, -⟩ := s.database.getAllKeyValues_ok
  unfold broadcastState catchups
  split
  · simp only [hall, sendAll_eq]
  · simp

theorem applyStopSign_eq (env : Env) {w : World Storage} {s : Server OP Msg} {stopsign : StopSign}
    {storage : Storage} {op : OP} {entries : List LogEntry}
    (hstorage : w.openStorage (storagePath env ((s.currentConfigId + 1) % 2 ^ 64)) = some storage)
    (hread : readDecidedSuffix s.omniPaxos 0 = some entries)
    (hbuild : OmniPaxos.buildForServer stopsign.nextConfig s.currentConfig storage = some op) :
    s.applyStopSign env w stopsign = .ok { s with
      omniPaxos := op
      network := { sent := s.network.sent ++ catchups env s.database stopsign.nextConfig }
      lastDecidedIdx := 0
      currentConfigId := (s.currentConfigId + 1) % 2 ^ 64 } := by
  simp only [applyStopSign, broadcastState_eq, hstorage, hread, hbuild]

/-- What a StopSign that does not panic does: the state transfer, then the swap of the instance. -/
theorem applyStopSign_ok {env : Env} {w : World Storage} {s s' : Server OP Msg}
    {stopsign : StopSign} (h : s.applyStopSign env w stopsign = .ok s') :
    ∃ storage op, w.openStorage (storagePath env ((s.currentConfigId + 1) % 2 ^ 64)) = some storage ∧
      OmniPaxos.buildForServer stopsign.nextConfig s.currentConfig storage = some op ∧
      s' = { s with
        omniPaxos := op
        network := { sent := s.network.sent ++ catchups env s.database stopsign.nextConfig }
        lastDecidedIdx := 0
        currentConfigId := (s.currentConfigId + 1) % 2 ^ 64 } := by
  simp only [applyStopSign, broadcastState_eq] at h
  split at h
  · cases h
  · rename_i storage hstorage
    split at h
    · cases h
    · split at h
      · cases h
      · rename_i op hbuild
        cases h
        exact ⟨storage, op, hstorage, hbuild, rfl⟩

/-- Applying what a read returns, up to but without a StopSign. A snapshot that comes first makes
the read start over at the beginning of the log. -/
theorem updateDatabase_suffix (env : Env) (w : World Storage) (s : Server OP Msg) {L : ConfigLog}
    {t : SnapshotTree} {i d : Nat} (ht : t.log <+: L.cmds) (htd : t.log.length ≤ d)
    (hd : d ≤ L.cmds.length) :
    s.updateDatabase env w (L.suffix t i d) = .ok { s with
      database := s.database.applyCommands ((L.cmds.take d).drop (ConfigLog.start t i)) } := by
  rw [ConfigLog.suffix, ConfigLog.start, ConfigLog.take_entries hd, ← List.map_drop, ← List.map_drop]
  split
  · have hlog : (L.cmds.take d).take t.log.length = t.log := by
      rw [List.take_take, Nat.min_eq_left htd]
      exact (List.prefix_iff_eq_take.mp ht).symm
    have hwhole : t.log ++ (L.cmds.take d).drop t.log.length = L.cmds.take d := by
      conv_rhs => rw [← List.take_append_drop t.log.length (L.cmds.take d), hlog]
    simp only [updateDatabase, applyEntry, updateDatabase_decided]
    rw [Database.handleSnapshot_build, ← Database.applyCommands_append, hwhole, List.drop_zero]
  · exact updateDatabase_decided env w s _

/-- The database after `handle_decided_entries`, where it reads anything. -/
def replayed (s : Server OP Msg) (L : ConfigLog) (t : SnapshotTree) : Database :=
  s.database.applyCommands
    ((L.cmds.take (getDecidedIdx s.omniPaxos)).drop (ConfigLog.start t s.readIdx))

/-- What `handle_decided_entries` can do on an instance that shows `L`. -/
inductive Handled (env : Env) (w : World Storage) (s : Server OP Msg) (L : ConfigLog)
    (t : SnapshotTree) : Server OP Msg → Prop where
  | nothing : getDecidedIdx s.omniPaxos ≤ s.readIdx →
      Handled env w s L t { s with lastDecidedIdx := s.readIdx }
  | commands : s.readIdx < getDecidedIdx s.omniPaxos → getDecidedIdx s.omniPaxos ≤ L.cmds.length →
      Handled env w s L t ({ s with
        database := s.replayed L t
        lastDecidedIdx := getDecidedIdx s.omniPaxos }.send 0
          (.apiResponse (.decided (getDecidedIdx s.omniPaxos))))
  | stopSign {stopsign : StopSign} {storage : Storage} {op : OP} :
      s.readIdx < getDecidedIdx s.omniPaxos → L.stop = some stopsign →
      getDecidedIdx s.omniPaxos = L.cmds.length + 1 →
      w.openStorage (storagePath env ((s.currentConfigId + 1) % 2 ^ 64)) = some storage →
      OmniPaxos.buildForServer stopsign.nextConfig s.currentConfig storage = some op →
      Handled env w s L t ({ s with
        omniPaxos := op
        network := { sent := s.network.sent ++ catchups env (s.replayed L t) stopsign.nextConfig }
        database := s.replayed L t
        lastDecidedIdx := 0
        currentConfigId := (s.currentConfigId + 1) % 2 ^ 64 }.finishDecided
          (getDecidedIdx s.omniPaxos))

theorem suffix_stop {L : ConfigLog} {t : SnapshotTree} {stopsign : StopSign} {i d : Nat}
    (hstop : L.stop = some stopsign) (ht : t.log.length ≤ L.cmds.length) (hi : i ≤ L.cmds.length)
    (hd : d = L.cmds.length + 1) :
    L.suffix t i d = L.suffix t i L.cmds.length ++ [.stopSign stopsign true] := by
  have hlen : (L.cmds.map LogEntry.decided).length = L.cmds.length := List.length_map _
  rw [hd, ConfigLog.suffix, ConfigLog.suffix, ConfigLog.take_entries_stop hstop,
    ConfigLog.take_entries le_rfl, List.take_length]
  split
  · rw [List.drop_append_of_le_length (by omega), List.cons_append]
  · rw [List.drop_append_of_le_length (by omega)]

theorem handleDecidedEntries_nothing (env : Env) (w : World Storage) {s : Server OP Msg}
    (h : getDecidedIdx s.omniPaxos ≤ s.readIdx) :
    s.handleDecidedEntries env w = .ok { s with lastDecidedIdx := s.readIdx } := by
  simp only [handleDecidedEntries, if_neg (Nat.not_lt_of_le h)]

theorem handleDecidedEntries_commands (env : Env) (w : World Storage) {s : Server OP Msg}
    {L : ConfigLog} {t : SnapshotTree} (hshow : Shows s.omniPaxos L t)
    (hlt : s.readIdx < getDecidedIdx s.omniPaxos)
    (hd : getDecidedIdx s.omniPaxos ≤ L.cmds.length) :
    s.handleDecidedEntries env w = .ok ({ s with
      database := s.replayed L t
      lastDecidedIdx := getDecidedIdx s.omniPaxos }.send 0
        (.apiResponse (.decided (getDecidedIdx s.omniPaxos)))) := by
  simp only [handleDecidedEntries, if_pos hlt, hshow.read _ hlt]
  rw [updateDatabase_suffix env w _ hshow.compacted hshow.compacted_le hd]
  simp only [finishDecided, hshow.isReconfigured_none hd, replayed]

/-- A read that ends with the StopSign applies the commands before it, then the StopSign. -/
theorem handleDecidedEntries_stopSign (env : Env) (w : World Storage) {s : Server OP Msg}
    {L : ConfigLog} {t : SnapshotTree} {stopsign : StopSign} (hshow : Shows s.omniPaxos L t)
    (hlt : s.readIdx < getDecidedIdx s.omniPaxos) (hstop : L.stop = some stopsign)
    (hd : getDecidedIdx s.omniPaxos = L.cmds.length + 1) :
    s.handleDecidedEntries env w =
      match applyStopSign env w
        { s with database := s.replayed L t, lastDecidedIdx := s.readIdx } stopsign with
      | .error p => .error p
      | .ok s' => .ok (s'.finishDecided (getDecidedIdx s.omniPaxos)) := by
  have ht : t.log.length ≤ L.cmds.length := hshow.compacted.length_le
  have hsplit : L.suffix t s.readIdx (getDecidedIdx s.omniPaxos) =
      L.suffix t s.readIdx L.cmds.length ++ [.stopSign stopsign true] :=
    suffix_stop hstop ht (by omega) hd
  have hreplayed : s.replayed L t = s.database.applyCommands
      ((L.cmds.take L.cmds.length).drop (ConfigLog.start t s.readIdx)) := by
    rw [replayed, hd, List.take_of_length_le (Nat.le_succ _), List.take_length]
  simp only [handleDecidedEntries, if_pos hlt, hshow.read _ hlt]
  rw [hsplit, updateDatabase_append, updateDatabase_suffix env w _ hshow.compacted ht le_rfl,
    hreplayed]
  simp only [updateDatabase, applyEntry]
  cases applyStopSign env w (_ : Server OP Msg) stopsign <;> rfl

theorem handleDecidedEntries_swap (env : Env) {w : World Storage} {s : Server OP Msg}
    {L : ConfigLog} {t : SnapshotTree} {stopsign : StopSign} {storage : Storage} {op : OP}
    (hshow : Shows s.omniPaxos L t) (hlt : s.readIdx < getDecidedIdx s.omniPaxos)
    (hstop : L.stop = some stopsign) (hd : getDecidedIdx s.omniPaxos = L.cmds.length + 1)
    (hstorage : w.openStorage (storagePath env ((s.currentConfigId + 1) % 2 ^ 64)) = some storage)
    (hbuild : OmniPaxos.buildForServer stopsign.nextConfig s.currentConfig storage = some op) :
    s.handleDecidedEntries env w = .ok ({ s with
      omniPaxos := op
      network := { sent := s.network.sent ++ catchups env (s.replayed L t) stopsign.nextConfig }
      database := s.replayed L t
      lastDecidedIdx := 0
      currentConfigId := (s.currentConfigId + 1) % 2 ^ 64 }.finishDecided
        (getDecidedIdx s.omniPaxos)) := by
  have hread := hshow.read 0 (by omega)
  have hcall := handleDecidedEntries_stopSign env w hshow hlt hstop hd
  have hswap := applyStopSign_eq (s := { s with
    database := s.replayed L t
    lastDecidedIdx := s.readIdx }) env hstorage hread hbuild
  rw [hswap] at hcall
  exact hcall

theorem handleDecidedEntries_cases {env : Env} {w : World Storage} {s s' : Server OP Msg}
    {L : ConfigLog} {t : SnapshotTree} (hshow : Shows s.omniPaxos L t)
    (h : s.handleDecidedEntries env w = .ok s') : Handled env w s L t s' := by
  by_cases hlt : s.readIdx < getDecidedIdx s.omniPaxos
  · rcases hshow.decided_cases with hd | ⟨stopsign, hstop, hd⟩
    · rw [handleDecidedEntries_commands env w hshow hlt hd] at h
      cases h
      exact .commands hlt hd
    · rw [handleDecidedEntries_stopSign env w hshow hlt hstop hd] at h
      split at h
      · cases h
      · rename_i s₁ hstopsign
        cases h
        obtain ⟨storage, op, hstorage, hbuild, rfl⟩ := applyStopSign_ok hstopsign
        exact .stopSign hlt hstop hd hstorage hbuild
  · have hle := Nat.le_of_not_lt hlt
    rw [handleDecidedEntries_nothing env w hle] at h
    cases h
    exact .nothing hle

/-! ## Relations kept by `handle_decided_entries` -/

section Relations

variable {env : Env} {w : World Storage} {s s' : Server OP Msg}
  {R : Server OP Msg → Server OP Msg → Prop}

theorem updateDatabase_rel (hrefl : ∀ s, R s s)
    (htrans : ∀ s s' s'', R s s' → R s' s'' → R s s'')
    (hentry : ∀ s s' e, s.applyEntry env w e = .ok s' → R s s') {es : List LogEntry}
    (h : s.updateDatabase env w es = .ok s') : R s s' := by
  induction es generalizing s with
  | nil =>
    cases h
    exact hrefl _
  | cons e rest ih =>
    rw [updateDatabase] at h
    split at h
    · cases h
    · rename_i s₁ hs₁
      exact htrans s s₁ s' (hentry s s₁ e hs₁) (ih h)

/-- A preorder that holds along each entry, and whatever `handle_decided_entries` does to the index,
holds along the whole call. -/
theorem handleDecidedEntries_rel (hrefl : ∀ s, R s s)
    (htrans : ∀ s s' s'', R s s' → R s' s'' → R s s'')
    (hentry : ∀ s s' e, s.applyEntry env w e = .ok s' → R s s')
    (hindex : ∀ s i, R s { s with lastDecidedIdx := i })
    (hfinish : ∀ s d, R s (s.finishDecided d))
    (h : s.handleDecidedEntries env w = .ok s') : R s s' := by
  have hread := hindex s s.readIdx
  unfold handleDecidedEntries at h
  dsimp only at h
  split at h
  · split at h
    · cases h
    · split at h
      · cases h
      · rename_i s₁ hupdate
        cases h
        exact htrans _ _ _ hread
          (htrans _ _ _ (updateDatabase_rel hrefl htrans hentry hupdate) (hfinish _ _))
  · cases h
    exact hread

end Relations

/-! ## What handling a message does -/

section Messages

variable {env : Env} {w : World Storage} {s s' : Server OP Msg}

theorem checkReplicas_fst (env : Env) (w : World Storage) (s : Server OP Msg) :
    (s.checkReplicas env w).1.omniPaxos = s.omniPaxos ∧
      (s.checkReplicas env w).1.network = s.network := by
  unfold checkReplicas
  repeat' split
  all_goals exact ⟨rfl, rfl⟩

theorem handleMsg_quiet (text : String) (h : (s.checkReplicas env w).2 = none) :
    s.handleMsg env w (.debug text) = .ok (s.checkReplicas env w).1 := by
  have hcheck : s.checkReplicas env w = ((s.checkReplicas env w).1, none) := Prod.ext rfl h
  simp only [handleMsg]
  rw [hcheck]

theorem handleMsg_proposal (text : String) {config : ClusterConfig}
    (h : (s.checkReplicas env w).2 = some config) :
    s.handleMsg env w (.debug text) =
      if config.nodes.length ≤ maxWords then
        match OmniPaxos.reconfigure s.omniPaxos config none with
        | none => .error .reconfigureRefused
        | some op => .ok { (s.checkReplicas env w).1 with omniPaxos := op }
      else
        .error .capacityOverflow := by
  simp only [handleMsg]
  rcases hcheck : s.checkReplicas env w with ⟨s₁, proposal⟩
  have hop : s₁.omniPaxos = s.omniPaxos := by simpa [hcheck] using (checkReplicas_fst env w s).1
  rw [hcheck] at h
  cases h
  simp only [hop]

/-- What `handle_msg` can do where it returns. -/
inductive MsgHandled (env : Env) (w : World Storage) (s : Server OP Msg) :
    Message Msg → Server OP Msg → Prop where
  | get (key : String) : MsgHandled env w s (.apiRequest (.get key))
      (s.send 0 (.apiResponse (.get key (s.database.get key))))
  | append {cmd : KVCommand} {op : OP} : (∀ key, cmd ≠ .get key) →
      OmniPaxos.append s.omniPaxos cmd = some op →
      MsgHandled env w s (.apiRequest cmd) { s with omniPaxos := op }
  | omniPaxosMsg (msg : Msg) : MsgHandled env w s (.omniPaxosMsg msg)
      { s with omniPaxos := OmniPaxos.handleIncoming s.omniPaxos msg }
  | stateCatchup (kvList : List (String × String)) : MsgHandled env w s (.stateCatchup kvList)
      { s with database := s.database.handleKv w.order kvList }
  | quiet {text : String} : (s.checkReplicas env w).2 = none →
      MsgHandled env w s (.debug text) (s.checkReplicas env w).1
  | propose {text : String} {config : ClusterConfig} {op : OP} :
      (s.checkReplicas env w).2 = some config → config.nodes.length ≤ maxWords →
      OmniPaxos.reconfigure s.omniPaxos config none = some op →
      MsgHandled env w s (.debug text) { (s.checkReplicas env w).1 with omniPaxos := op }
  | reconnected {pid : Nat} :
      (OmniPaxos.getCurrentLeader s.omniPaxos).map Prod.fst ≠ some env.pid →
      MsgHandled env w s (.reconnect pid)
        { s with omniPaxos := OmniPaxos.reconnected s.omniPaxos pid }
  | leads {pid : Nat} : (OmniPaxos.getCurrentLeader s.omniPaxos).map Prod.fst = some env.pid →
      MsgHandled env w s (.reconnect pid) s

theorem handleMsg_cases {m : Message Msg} (h : s.handleMsg env w m = .ok s') :
    MsgHandled env w s m s' := by
  cases m with
  | omniPaxosMsg msg =>
    cases h
    exact .omniPaxosMsg msg
  | apiRequest cmd =>
    cases cmd with
    | get key =>
      rw [handleMsg_get] at h
      cases h
      exact .get key
    | put _ | delete _ =>
      simp only [handleMsg] at h
      split at h
      · cases h
      · rename_i op happend
        cases h
        exact .append (by simp) happend
  | apiResponse resp => cases h
  | debug text =>
    cases hcheck : (s.checkReplicas env w).2 with
    | none =>
      rw [handleMsg_quiet text hcheck] at h
      cases h
      exact .quiet hcheck
    | some config =>
      rw [handleMsg_proposal text hcheck] at h
      split at h
      · rename_i hfits
        split at h
        · cases h
        · rename_i op hreconfigure
          cases h
          exact .propose hcheck hfits hreconfigure
      · cases h
  | stateCatchup kvList =>
    cases h
    exact .stateCatchup kvList
  | reconnect pid =>
    simp only [handleMsg] at h
    split at h
    · rename_i hfollower
      cases h
      exact .reconnected hfollower
    · rename_i hlead
      cases h
      exact .leads (not_not.mp hlead)

/-- Where handling a message panics. -/
inductive MsgPanics (env : Env) (w : World Storage) (s : Server OP Msg) :
    Message Msg → Panic → Prop where
  | append {cmd : KVCommand} : OmniPaxos.append s.omniPaxos cmd = none →
      MsgPanics env w s (.apiRequest cmd) .appendRefused
  | collect {text : String} {config : ClusterConfig} : (s.checkReplicas env w).2 = some config →
      ¬config.nodes.length ≤ maxWords → MsgPanics env w s (.debug text) .capacityOverflow
  | propose {text : String} {config : ClusterConfig} : (s.checkReplicas env w).2 = some config →
      config.nodes.length ≤ maxWords → OmniPaxos.reconfigure s.omniPaxos config none = none →
      MsgPanics env w s (.debug text) .reconfigureRefused
  | apiResponse (resp : APIResponse) : MsgPanics env w s (.apiResponse resp) .unimplemented

theorem handleMsg_panics {m : Message Msg} {p : Panic} (h : s.handleMsg env w m = .error p) :
    MsgPanics env w s m p := by
  cases m with
  | omniPaxosMsg msg => cases h
  | apiRequest cmd =>
    cases cmd with
    | get key => cases h
    | put _ | delete _ =>
      simp only [handleMsg] at h
      split at h
      · rename_i happend
        cases h
        exact .append happend
      · cases h
  | apiResponse resp =>
    cases h
    exact .apiResponse resp
  | debug text =>
    cases hcheck : (s.checkReplicas env w).2 with
    | none =>
      rw [handleMsg_quiet text hcheck] at h
      cases h
    | some config =>
      rw [handleMsg_proposal text hcheck] at h
      split at h
      · rename_i hfits
        split at h
        · rename_i hrefused
          cases h
          exact .propose hcheck hfits hrefused
        · cases h
      · rename_i hover
        cases h
        exact .collect hcheck hover
  | stateCatchup kvList => cases h
  | reconnect pid =>
    simp only [handleMsg] at h
    split at h <;> cases h

end Messages

/-! ## What the calls send -/

/-- On the way from `s` to `s'` only messages that meet `ok` are sent. -/
def Sends (ok : Message Msg → Prop) (s s' : Server OP Msg) : Prop :=
  ∃ more, s'.network.sent = s.network.sent ++ more ∧ ∀ x ∈ more, ok x.2

variable {ok : Message Msg → Prop} {env : Env} {w : World Storage} {s s' : Server OP Msg}

theorem Sends.of_sent_eq (h : s'.network.sent = s.network.sent) : Sends ok s s' :=
  ⟨[], by rw [h, List.append_nil], by simp⟩

theorem Sends.trans {s'' : Server OP Msg} (h : Sends ok s s') (h' : Sends ok s' s'') :
    Sends ok s s'' := by
  obtain ⟨more, hsent, hok⟩ := h
  obtain ⟨more', hsent', hok'⟩ := h'
  refine ⟨more ++ more', by rw [hsent', hsent, List.append_assoc], ?_⟩
  intro x hx
  exact (List.mem_append.mp hx).elim (hok x) (hok' x)

theorem sends_send (s : Server OP Msg) (receiver : Nat) {m : Message Msg} (hm : ok m) :
    Sends ok s (s.send receiver m) := ⟨_, rfl, by simpa using hm⟩

theorem sends_sendAll (s : Server OP Msg) (pids : List Nat) {m : Message Msg} (hm : ok m) :
    Sends ok s (s.sendAll pids m) := by
  rw [sendAll_eq]
  refine ⟨_, rfl, fun x hx => ?_⟩
  obtain ⟨pid, -, rfl⟩ := List.mem_map.mp hx
  exact hm

theorem handleMsg_sends {m : Message Msg} (hget : ∀ key value, ok (.apiResponse (.get key value)))
    (h : s.handleMsg env w m = .ok s') : Sends ok s s' := by
  cases handleMsg_cases h with
  | get key => exact sends_send s 0 (hget _ _)
  | quiet _ | propose _ _ _ => exact .of_sent_eq (congrArg Network.sent (checkReplicas_fst env w s).2)
  | append _ _ | omniPaxosMsg _ | stateCatchup _ | reconnected _ | leads _ => exact .of_sent_eq rfl

theorem catchups_ok {db : Database} {newConfiguration : ClusterConfig}
    (hcatchup : ∀ kvList, ok (.stateCatchup kvList)) :
    ∀ x ∈ catchups env db newConfiguration, ok x.2 := by
  intro x hx
  unfold catchups at hx
  split at hx
  · split at hx
    · cases hx
    · obtain ⟨pid, -, rfl⟩ := List.mem_map.mp hx
      exact hcatchup _
  · cases hx

theorem applyEntry_sends {e : LogEntry} (hcatchup : ∀ kvList, ok (.stateCatchup kvList))
    (h : s.applyEntry env w e = .ok s') : Sends ok s s' := by
  unfold applyEntry at h
  split at h
  · cases h
    exact .of_sent_eq rfl
  · cases h
    exact .of_sent_eq rfl
  · obtain ⟨storage, op, -, -, rfl⟩ := applyStopSign_ok h
    exact ⟨_, rfl, catchups_ok hcatchup⟩
  · cases h
    exact .of_sent_eq rfl

theorem handleDecidedEntries_sends (hcatchup : ∀ kvList, ok (.stateCatchup kvList))
    (hdecided : ∀ d, ok (.apiResponse (.decided d)))
    (h : s.handleDecidedEntries env w = .ok s') : Sends ok s s' := by
  refine handleDecidedEntries_rel (R := Sends ok) (fun s => .of_sent_eq rfl)
    (fun _ _ _ => Sends.trans) (fun _ _ _ => applyEntry_sends hcatchup) (fun _ _ => .of_sent_eq rfl)
    (fun s d => ?_) h
  unfold finishDecided
  split
  · exact .of_sent_eq rfl
  · exact sends_send _ 0 (hdecided _)

end Server
end OmniKV
