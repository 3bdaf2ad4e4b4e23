import OmniKV.Integrity
import OmniKV.Lib.Decimal
import OmniKV.Lib.Frames

/-!
# Succession

How a node comes from one configuration into the next, in any run with any number of crashes.

It comes in only as a member, and only after it has handed its whole database to `send` for each peer
(`passes_as_member`). It opens a storage of its own for each configuration: after a restart the same one
again, and never that of another configuration or another node (`storages_apart`).
-/

namespace OmniKV
namespace Succession

open OmniPaxos (getDecidedIdx)

variable {OP Msg Storage : Type} [OmniPaxos OP Msg Storage]

/-- What the consensus library checks before it builds an instance. -/
structure BuildLaw (OP : Type) {Msg Storage : Type} [OmniPaxos OP Msg Storage] : Prop where
  member : ∀ (config : ClusterConfig) (serverConfig : ServerConfig) (storage : Storage) (op : OP),
    OmniPaxos.buildForServer config serverConfig storage = some op → serverConfig.pid ∈ config.nodes

/-! ## Paths -/

/-- The path of the storage that `main` opens. -/
def initialStoragePath (env : Env) : String :=
  "/data/omnipaxos_" ++ toString env.pid ++ "/config_1"

theorem toList_pid (env : Env) (rest : String) :
    ("/data/omnipaxos_" ++ toString env.pid ++ rest).toList =
      "/data/omnipaxos_".toList ++ (Nat.toDigits 10 env.pid ++ rest.toList) := by
  rw [String.toList_append, Decimal.toList_append_toString, List.append_assoc]

theorem toList_storagePath (env : Env) (i : Nat) : (Server.storagePath env i).toList =
    "/data/omnipaxos_".toList ++ (Nat.toDigits 10 env.pid ++
      '/' :: ("config".toList ++ Nat.toDigits 10 i)) := by
  have hconfig : "/config".toList = '/' :: "config".toList := by simp
  have hall : (Server.storagePath env i).toList =
      ("/data/omnipaxos_" ++ toString env.pid ++ "/config").toList ++ Nat.toDigits 10 i :=
    Decimal.toList_append_toString _ _
  rw [hall, toList_pid, hconfig, List.append_assoc, List.append_assoc, List.cons_append]

theorem toList_initialStoragePath (env : Env) : (initialStoragePath env).toList =
    "/data/omnipaxos_".toList ++ (Nat.toDigits 10 env.pid ++
      '/' :: ("config".toList ++ ['_', '1'])) := by
  have hconfig : "/config_1".toList = '/' :: ("config".toList ++ ['_', '1']) := by simp
  rw [← hconfig]
  exact toList_pid env "/config_1"

/-- A PID is read off a path up to the next slash. -/
theorem toDigits_slash_inj {m n : Nat} {s t : List Char}
    (h : Nat.toDigits 10 m ++ '/' :: s = Nat.toDigits 10 n ++ '/' :: t) : m = n ∧ s = t := by
  have hslash : ∀ k : Nat, '/' ∉ Nat.toDigits 10 k := by
    intro k hk
    simpa using Decimal.isDigit_of_mem hk
  have hread := congrArg (Frames.readUntil '/') h
  rw [Frames.readUntil_frame (hslash m), Frames.readUntil_frame (hslash n)] at hread
  obtain ⟨hdigits, hrest⟩ := Prod.mk.inj hread
  exact ⟨Decimal.toDigits_inj.mp (List.append_cancel_right hdigits), hrest⟩

theorem storagePath_eq_iff {env env' : Env} {i j : Nat} :
    Server.storagePath env i = Server.storagePath env' j ↔ env.pid = env'.pid ∧ i = j := by
  rw [← String.toList_inj, toList_storagePath, toList_storagePath, List.append_cancel_left_eq]
  constructor
  · intro h
    obtain ⟨hpid, hrest⟩ := toDigits_slash_inj h
    exact ⟨hpid, Decimal.toDigits_inj.mp (List.append_cancel_left hrest)⟩
  · rintro ⟨hpid, rfl⟩
    rw [hpid]

theorem storagePath_ne_initial (env env' : Env) (i : Nat) :
    Server.storagePath env i ≠ initialStoragePath env' := by
  intro h
  rw [← String.toList_inj, toList_storagePath, toList_initialStoragePath,
    List.append_cancel_left_eq] at h
  have hdigits := List.append_cancel_left (toDigits_slash_inj h).2
  have hmem : '_' ∈ Nat.toDigits 10 i := by
    rw [hdigits]
    exact List.mem_cons_self
  simpa using Decimal.isDigit_of_mem hmem

/-! ## Passing a StopSign -/

variable {env : Env} {logs : Nat → ConfigLog} {n n' : Node OP Msg} {e : Event Msg Storage}

/-- A node, its number and its PID. -/
structure Seated (env : Env) (logs : Nat → ConfigLog) (n : Node OP Msg) : Prop where
  runs : Runs n.server.omniPaxos (logs n.conf)
  pid : n.server.currentConfig.pid = env.pid
  number : n.server.currentConfigId = (n.conf + 1) % 2 ^ 64

/-- What passing the StopSign takes, and what it sends. -/
structure Passes (env : Env) (logs : Nat → ConfigLog) (n : Node OP Msg) (w : World Storage)
    (n' : Node OP Msg) (stopsign : StopSign) : Prop where
  stop : (logs n.conf).stop = some stopsign
  build : ∃ storage, w.openStorage
      (Server.storagePath env ((n.server.currentConfigId + 1) % 2 ^ 64)) = some storage ∧
    OmniPaxos.buildForServer stopsign.nextConfig n.server.currentConfig storage =
      some n'.server.omniPaxos
  sends : ∃ more, Transfer.kvLists more = [] ∧ n'.server.network.sent = n.server.network.sent ++
    Server.catchups env n'.server.database stopsign.nextConfig ++ more
  pid : n'.server.currentConfig = n.server.currentConfig
  number : n'.server.currentConfigId = (n.server.currentConfigId + 1) % 2 ^ 64
  conf : n'.conf = n.conf + 1

theorem finishDecided_config (s : Server OP Msg) (d : Nat) :
    (s.finishDecided d).currentConfig = s.currentConfig ∧
      (s.finishDecided d).currentConfigId = s.currentConfigId := by
  unfold Server.finishDecided
  split <;> exact ⟨rfl, rfl⟩

/-- A call that returns keeps the number and the configuration of the server, or passes the StopSign. -/
theorem handle_passes (hruns : Runs n.server.omniPaxos (logs n.conf)) {w : World Storage}
    {s' : Server OP Msg} (hs : n.server.handleDecidedEntries env w = .ok s') :
    (n.server.readsStop = false ∧ (n.afterHandle s').conf = n.conf ∧
      s'.currentConfig = n.server.currentConfig ∧ s'.currentConfigId = n.server.currentConfigId) ∨
    n.server.readsStop = true ∧ ∃ stopsign, Passes env logs n w (n.afterHandle s') stopsign := by
  obtain ⟨t, hshow⟩ := hruns
  cases Server.handleDecidedEntries_cases hshow hs with
  | nothing hle =>
    have hstop := Server.readsStop_nothing hle
    exact Or.inl ⟨hstop, by simp [Node.afterHandle, hstop], rfl, rfl⟩
  | commands hlt hd =>
    have hstop := Server.readsStop_commands hshow hlt hd
    exact Or.inl ⟨hstop, by simp [Node.afterHandle, hstop], rfl, rfl⟩
  | stopSign hlt hss hd hstorage hbuild =>
    rename_i stopsign storage op
    have hstop := Server.readsStop_stopSign hshow hlt hss hd
    refine Or.inr ⟨hstop, _, hss, ?_, ?_, ?_, ?_, ?_⟩
    · rw [Node.afterHandle_server, Server.finishDecided_omniPaxos]
      exact ⟨_, hstorage, hbuild⟩
    · obtain ⟨more, hsent, hmore⟩ := Transfer.finishDecided_sent { n.server with
        omniPaxos := op
        network := { sent := n.server.network.sent ++
          Server.catchups env (n.server.replayed (logs n.conf) t) stopsign.nextConfig }
        database := n.server.replayed (logs n.conf) t
        lastDecidedIdx := 0
        currentConfigId := (n.server.currentConfigId + 1) % 2 ^ 64 }
        (getDecidedIdx n.server.omniPaxos)
      rw [Node.afterHandle_server, Server.finishDecided_database]
      exact ⟨more, hmore, hsent⟩
    · rw [Node.afterHandle_server]
      exact (finishDecided_config _ _).1
    · rw [Node.afterHandle_server]
      exact (finishDecided_config _ _).2
    · simp [Node.afterHandle, hstop]

theorem Seated.init {B : Database} (h : (Node.machine env logs B : Machine (Node OP Msg)
    (Event Msg Storage)).init n) : Seated env logs n := by
  obtain ⟨api, op, hruns, rfl⟩ := h
  exact ⟨hruns, rfl, rfl⟩

theorem Seated.step (h : Seated env logs n) (hs : Node.Step env logs n e n') :
    Seated env logs n' := by
  cases hs with
  | advance hruns _ => exact ⟨hruns, h.pid, h.number⟩
  | get hs =>
    rw [Server.handleMsg_get] at hs
    cases hs
    exact ⟨h.runs, h.pid, h.number⟩
  | handle hs hnext =>
    rcases handle_passes h.runs hs with ⟨-, hconf, hpid, hnumber⟩ | ⟨-, stopsign, hpasses⟩
    · refine ⟨Integrity.afterHandle_runs h.runs hs hnext, ?_, ?_⟩
      · rw [Node.afterHandle_server, hpid, h.pid]
      · rw [Node.afterHandle_server, hconf, hnumber, h.number]
    · refine ⟨Integrity.afterHandle_runs h.runs hs hnext, ?_, ?_⟩
      · rw [hpasses.pid, h.pid]
      · rw [hpasses.number, hpasses.conf, h.number, Nat.mod_add_mod]
  | catchup hs =>
    rw [Server.handleMsg_stateCatchup] at hs
    cases hs
    exact ⟨h.runs, h.pid, h.number⟩
  | restart _ hrecover hruns _ =>
    refine ⟨hruns, ?_, ?_⟩
    · rw [Server.recover_ok hrecover]
      rfl
    · rw [Server.recover_ok hrecover]
      rfl

/-! ## Runs -/

section Runs

variable {B : Database} {tr : List (Machine.Transition (Node OP Msg) (Event Msg Storage))}

/-- Every step of a run starts from a seated node. -/
theorem Seated.of_mem (hrun : (Node.machine env logs B).Run tr n) :
    ∀ t ∈ tr, Seated env logs t.before ∧ Node.Step env logs t.before t.event t.after :=
  hrun.of_mem (C := fun _ => True) (fun _ => Seated.init) (fun _ _ _ h hs _ => h.step hs) (by simp)

theorem step_handle {w : World Storage} (hs : Node.Step env logs n (.handle w) n') :
    ∃ s', n.server.handleDecidedEntries env w = .ok s' ∧ n' = n.afterHandle s' := by
  cases hs with
  | handle hs _ => exact ⟨_, hs, rfl⟩

/-- The step applies a StopSign, and returns. -/
def AppliesStop (t : Machine.Transition (Node OP Msg) (Event Msg Storage)) (w : World Storage) :
    Prop :=
  t.event = .handle w ∧ t.before.server.readsStop = true

theorem AppliesStop.passes {t : Machine.Transition (Node OP Msg) (Event Msg Storage)}
    {w : World Storage} (h : AppliesStop t w) (hseated : Seated env logs t.before)
    (hs : Node.Step env logs t.before t.event t.after) :
    ∃ stopsign, Passes env logs t.before w t.after stopsign := by
  obtain ⟨hevent, hstop⟩ := h
  rw [hevent] at hs
  obtain ⟨s', hcall, hafter⟩ := step_handle hs
  rcases handle_passes hseated.runs hcall with ⟨hkept, -⟩ | ⟨-, hpasses⟩
  · rw [hstop] at hkept
    cases hkept
  · rw [hafter]
    exact hpasses

/-- The path that applying the StopSign opens. -/
def nextPath (env : Env) (n : Node OP Msg) : String :=
  Server.storagePath env ((n.server.currentConfigId + 1) % 2 ^ 64)

theorem Seated.nextPath_eq (h : Seated env logs n) :
    nextPath env n = Server.storagePath env ((n.conf + 2) % 2 ^ 64) := by
  rw [nextPath, h.number, Nat.mod_add_mod]

/-- The step opens the storage at `path`, and goes on with an instance over it. -/
def Opens (t : Machine.Transition (Node OP Msg) (Event Msg Storage)) (w : World Storage)
    (path : String) : Prop :=
  ∃ storage config, w.openStorage path = some storage ∧
    OmniPaxos.buildForServer config t.before.server.currentConfig storage =
      some t.after.server.omniPaxos

/-- The node is a member of every configuration it has come into by StopSigns. -/
def Admitted (env : Env) (logs : Nat → ConfigLog) (c : Nat) : Prop :=
  ∀ i, i < c → ∃ stopsign, (logs i).stop = some stopsign ∧ env.pid ∈ stopsign.nextConfig.nodes

theorem Passes.opens {t : Machine.Transition (Node OP Msg) (Event Msg Storage)} {w : World Storage}
    {stopsign : StopSign} (h : Passes env logs t.before w t.after stopsign) :
    Opens t w (nextPath env t.before) := by
  obtain ⟨storage, hstorage, hbuild⟩ := h.build
  exact ⟨storage, _, hstorage, hbuild⟩

theorem Passes.member (law : BuildLaw OP) (hseated : Seated env logs n) {w : World Storage}
    {stopsign : StopSign} (h : Passes env logs n w n' stopsign) :
    env.pid ∈ stopsign.nextConfig.nodes := by
  obtain ⟨storage, -, hbuild⟩ := h.build
  rw [← hseated.pid]
  exact law.member _ _ _ _ hbuild

theorem Admitted.step (law : BuildLaw OP) (h : Admitted env logs n.conf) (hseated : Seated env logs n)
    (hs : Node.Step env logs n e n') : Admitted env logs n'.conf := by
  cases hs with
  | advance _ _ => exact h
  | get _ => exact h
  | catchup _ => exact h
  | handle hs _ =>
    rcases handle_passes hseated.runs hs with ⟨-, hconf, -⟩ | ⟨-, stopsign, hpasses⟩
    · rw [hconf]
      exact h
    · rw [hpasses.conf]
      intro i hi
      rcases Nat.lt_succ_iff_lt_or_eq.mp hi with hi | rfl
      · exact h i hi
      · exact ⟨stopsign, hpasses.stop, hpasses.member law hseated⟩
  | restart _ _ _ _ => exact fun i hi => absurd hi (Nat.not_lt_zero i)

/-- What a node that passes a StopSign has sent before anything else of the new configuration. -/
theorem Passes.transfers (law : BuildLaw OP) (hseated : Seated env logs n) {w : World Storage}
    {stopsign : StopSign} (h : Passes env logs n w n' stopsign) :
    ∃ kvList, n'.server.database.getAllKeyValues = .ok kvList ∧
      n.server.network.sent ++ env.peers.map (fun pid => (pid, .stateCatchup kvList)) <+:
        n'.server.network.sent := by
  obtain ⟨kvList, hall, -, -⟩ := n'.server.database.getAllKeyValues_ok
  obtain ⟨more, -, hsent⟩ := h.sends
  refine ⟨kvList, hall, more, ?_⟩
  rw [hsent, Server.catchups, if_pos (h.member law hseated), hall]

/-- In any run, with any kills: a node comes into a configuration only as a member of it, and each
time it applies a StopSign it has first handed its whole database to `send` for every peer, and nothing
else since. -/
theorem passes_as_member (law : BuildLaw OP) (hrun : (Node.machine env logs B).Run tr n) :
    Admitted env logs n.conf ∧
    ∀ t ∈ tr, ∀ w, AppliesStop t w → ∃ kvList,
      t.after.server.database.getAllKeyValues = .ok kvList ∧
      t.before.server.network.sent ++ env.peers.map (fun pid => (pid, .stateCatchup kvList)) <+:
        t.after.server.network.sent := by
  constructor
  · refine (hrun.invariant' (I := fun n => Seated env logs n ∧ Admitted env logs n.conf)
      (fun n h => ⟨.init h, ?_⟩) fun n e n' h hs => ⟨h.1.step hs, h.2.step law h.1 hs⟩).2
    obtain ⟨api, op, -, rfl⟩ := h
    exact fun i hi => absurd hi (Nat.not_lt_zero i)
  · intro t ht w happlies
    obtain ⟨hseated, hs⟩ := Seated.of_mem hrun t ht
    obtain ⟨stopsign, hpasses⟩ := happlies.passes hseated hs
    exact hpasses.transfers law hseated

/-- Take any two steps, of one run or of two, in which nodes apply a StopSign. The step opens the
storage at `nextPath`, and both open the same one exactly if the same node comes into the configuration
of the same number. None of them is a storage that `main` opens. -/
theorem storages_apart {env' : Env} {logs' : Nat → ConfigLog} {B' : Database}
    {tr' : List (Machine.Transition (Node OP Msg) (Event Msg Storage))}
    (hrun : (Node.machine env logs B).Run tr n) (hrun' : (Node.machine env' logs' B').Run tr' n') :
    ∀ t ∈ tr, ∀ w, AppliesStop t w →
      Opens t w (nextPath env t.before) ∧ nextPath env t.before ≠ initialStoragePath env' ∧
      ∀ t' ∈ tr', ∀ w', AppliesStop t' w' →
        (nextPath env t.before = nextPath env' t'.before ↔
          env.pid = env'.pid ∧ t.before.conf % 2 ^ 64 = t'.before.conf % 2 ^ 64) := by
  intro t ht w happlies
  obtain ⟨hseated, hs⟩ := Seated.of_mem hrun t ht
  obtain ⟨stopsign, hpasses⟩ := happlies.passes hseated hs
  refine ⟨hpasses.opens, storagePath_ne_initial env env' _, fun t' ht' w' happlies' => ?_⟩
  obtain ⟨hseated', -⟩ := Seated.of_mem hrun' t' ht'
  rw [hseated.nextPath_eq, hseated'.nextPath_eq, storagePath_eq_iff]
  have hnumber : (t.before.conf + 2) % 2 ^ 64 = (t'.before.conf + 2) % 2 ^ 64 ↔
      t.before.conf % 2 ^ 64 = t'.before.conf % 2 ^ 64 := by omega
  rw [hnumber]

end Runs

section Samples

theorem replica_buildLaw : BuildLaw Replica where
  member config serverConfig storage op h := by
    by_contra hmem
    have hnone : Replica.buildForServer config serverConfig storage = none := if_neg hmem
    have hsome : Replica.buildForServer config serverConfig storage = some op := h
    rw [hnone] at hsome
    cases hsome

/-- The replica of the second configuration on node `p`. -/
def newReplica (p : Nat) : Replica :=
  { Replica.opened (sampleLogs 1) 0 (.create []) with
    peers := sampleStopSign.nextConfig.nodes.filter fun pid => pid ≠ p }

/-- Node `p` of the three applies the StopSign, is killed, and applies it again. -/
theorem again_run (p : Nat) (hp : p ∈ sampleStopSign.nextConfig.nodes) :
    ∃ (first second : Machine.Transition (Node Replica ReplicaMsg) (Event ReplicaMsg Replica))
      (tr : List (Machine.Transition (Node Replica ReplicaMsg) (Event ReplicaMsg Replica)))
      (n : Node Replica ReplicaMsg) (w : World Replica),
    (Node.machine (sampleNodes p) sampleLogs Database.empty).Run tr n ∧ first ∈ tr ∧ second ∈ tr ∧
    AppliesStop first w ∧ AppliesStop second w ∧ first.before.conf = 0 ∧ second.before.conf = 0 := by
  have hshow := sampleLogs_shows 0 (d := 2) le_rfl
  have hbuild : OmniPaxos.buildForServer sampleStopSign.nextConfig
      (initialServerConfig (sampleNodes p)) (Replica.opened (sampleLogs 1) 0 (.create [])) =
      some (newReplica p) := if_pos hp
  have hruns : Runs (newReplica p) (sampleLogs 1) :=
    ⟨_, Replica.shows_uncompacted rfl (Nat.zero_le _)⟩
  have hrun := Machine.Run.nil (M := Node.machine (sampleNodes p) sampleLogs Database.empty)
    ⟨.error .client, Replica.opened (sampleLogs 0) 2 (.create []), ⟨_, hshow⟩, rfl⟩
  have hrun := hrun.snoc (.stopSign (w := sampleWorld (.opened (sampleLogs 1) 0 (.create [])))
    hshow Nat.two_pos rfl rfl rfl hbuild hruns)
  have hrun := hrun.snoc (.restart
    (w := sampleWorld (.opened (sampleLogs 1) 0 (.create []))) (.writing 0)
    (Server.recover_false (.initial (sampleNodes p) (.error .client)
      (Replica.opened (sampleLogs 0) 2 (.create [])) _)) ⟨_, hshow⟩ rfl)
  have hrun := hrun.snoc (.stopSign (w := sampleWorld (.opened (sampleLogs 1) 0 (.create [])))
    hshow Nat.two_pos rfl rfl rfl hbuild hruns)
  refine ⟨_, _, _, _, _, hrun,
    List.mem_append_left _ (List.mem_append_left _ List.mem_cons_self),
    List.mem_append_right _ List.mem_cons_self, ⟨rfl, ?_⟩, ⟨rfl, ?_⟩, rfl, rfl⟩
  · exact Server.readsStop_stopSign hshow Nat.two_pos rfl rfl
  · exact Server.readsStop_stopSign hshow Nat.two_pos rfl rfl

/-- Node 2 stays a member of the second configuration, and hands its database on twice. -/
theorem passes_as_member_sample : ∃ (tr : List (Machine.Transition (Node Replica ReplicaMsg)
      (Event ReplicaMsg Replica))) (n : Node Replica ReplicaMsg),
    (Node.machine (sampleNodes 2) sampleLogs Database.empty).Run tr n ∧
    Admitted (sampleNodes 2) sampleLogs n.conf ∧
    ∃ t ∈ tr, ∃ kvList, t.after.server.database.getAllKeyValues = .ok kvList ∧
      t.before.server.network.sent ++ [(1, .stateCatchup kvList), (3, .stateCatchup kvList)] <+:
        t.after.server.network.sent := by
  obtain ⟨first, second, tr, n, w, hrun, hfirst, hsecond, happlies, happlies', -⟩ :=
    again_run 2 (by simp [sampleStopSign])
  obtain ⟨hmember, hsent⟩ := passes_as_member replica_buildLaw hrun
  exact ⟨tr, n, hrun, hmember, second, hsecond, hsent second hsecond w happlies'⟩

/-- Node 1 comes back into the storage it has left, node 2 has another. -/
theorem storages_apart_sample : ∃ (first second other : Machine.Transition
      (Node Replica ReplicaMsg) (Event ReplicaMsg Replica))
      (tr tr' : List (Machine.Transition (Node Replica ReplicaMsg) (Event ReplicaMsg Replica)))
      (n n' : Node Replica ReplicaMsg),
    (Node.machine (sampleNodes 1) sampleLogs Database.empty).Run tr n ∧ first ∈ tr ∧ second ∈ tr ∧
    (Node.machine (sampleNodes 2) sampleLogs Database.empty).Run tr' n' ∧ other ∈ tr' ∧
    nextPath (sampleNodes 1) first.before = nextPath (sampleNodes 1) second.before ∧
    nextPath (sampleNodes 1) first.before ≠ nextPath (sampleNodes 2) other.before := by
  obtain ⟨first, second, tr, n, w, hrun, hfirst, hsecond, happlies, happlies', hconf, hconf'⟩ :=
    again_run 1 (by simp [sampleStopSign])
  obtain ⟨other, -, tr', n', w', hrun', hother, -, happlies'', -⟩ :=
    again_run 2 (by simp [sampleStopSign])
  refine ⟨first, second, other, tr, tr', n, n', hrun, hfirst, hsecond, hrun', hother, ?_, ?_⟩
  · apply ((storages_apart hrun hrun first hfirst w happlies).2.2 second hsecond w happlies').mpr
    rw [hconf, hconf']
    exact ⟨rfl, rfl⟩
  · intro heq
    have hsame := ((storages_apart hrun hrun' first hfirst w happlies).2.2 other hother w'
      happlies'').mp heq
    exact absurd hsame.1 (by decide)

end Samples

end Succession
end OmniKV
