import OmniKV.Node
import OmniKV.Replica

/-!
# Transfer

What a state transfer carries. The node that applies the StopSign of a configuration sends its whole
database, which it takes for what the configurations up to this one have written.

After a restart the process replays the first configuration on the disk it found, and meets the old
StopSign again. The replay writes the keys of the first configuration and no others, so the database
it sends holds the replayed values of these keys, and of every other key the value found on disk,
which a later configuration may have put there. `transfers_iff` says when it sends what it should.
-/

namespace OmniKV
namespace Transfer

open Overlay
open OmniPaxos (getDecidedIdx isReconfigured)
open Node (history)

variable {OP Msg Storage : Type} [OmniPaxos OP Msg Storage]

/-- The lists that the state transfers among `sends` carry. -/
def kvLists (sends : List (Nat × Message Msg)) : List (List (String × String)) :=
  sends.filterMap fun
    | (_, .stateCatchup kvList) => some kvList
    | _ => none

theorem kvLists_append (sends more : List (Nat × Message Msg)) :
    kvLists (sends ++ more) = kvLists sends ++ kvLists more := by
  simp [kvLists]

section Transitions

variable (t : Machine.Transition (Node OP Msg) (Event Msg Storage))

/-- The lists sent while applying a StopSign, by a call that returns or by one the process is killed
in. -/
def transferred : List (List (String × String)) :=
  match t.event with
  | .handle _ =>
    kvLists (t.after.server.network.sent.drop t.before.server.network.sent.length)
  | .restart sends => kvLists sends
  | _ => []

/-- What is sent are the pairs that the configurations so far produce. -/
def Exact (logs : Nat → ConfigLog) : Prop :=
  ∀ kvList ∈ transferred t,
    (Database.empty.applyCommands (history logs (t.before.conf + 1))).getAllKeyValues = .ok kvList

/-- The call reads a StopSign whose next configuration has the node in it, and it has peers; or the
process is killed when it has sent something. -/
def Broadcasts (env : Env) : Prop :=
  match t.event with
  | .handle _ => env.peers ≠ [] ∧ ∃ stopsign,
      .stopSign stopsign true ∈ t.before.server.entriesRead ∧ env.pid ∈ stopsign.nextConfig.nodes
  | .restart sends => sends ≠ []
  | _ => False

/-- The process has found on disk only keys that the configurations so far write. -/
def OwnKeys (logs : Nat → ConfigLog) : Prop :=
  ∀ key, t.before.boot.get key ≠ none → key ∈ logKeys (history logs (t.before.conf + 1))

/-- No call jumps over entries, also not the one a process is killed in, and no state transfer that
comes in changes the database. -/
structure Steady : Prop where
  jumps : Node.JumpsNot t
  killed : ∀ sends, t.event = .restart sends → sends ≠ [] → t.before.NoJump
  catchup : Node.CatchupMatches t

end Transitions

variable {env : Env} {logs : Nat → ConfigLog} {n n' : Node OP Msg}

/-! ## What is sent -/

theorem mem_catchups {db : Database} {config : ClusterConfig} {m : Nat × Message Msg}
    (h : m ∈ Server.catchups env db config) :
    ∃ kvList, db.getAllKeyValues = .ok kvList ∧ m.2 = .stateCatchup kvList := by
  unfold Server.catchups at h
  split at h
  · split at h
    · cases h
    · rename_i kvList hall
      obtain ⟨pid, -, rfl⟩ := List.mem_map.mp h
      exact ⟨kvList, hall, rfl⟩
  · cases h

theorem mem_kvLists {sends : List (Nat × Message Msg)} {kvList : List (String × String)} :
    kvList ∈ kvLists sends ↔ ∃ m ∈ sends, m.2 = .stateCatchup kvList := by
  constructor
  · intro h
    obtain ⟨⟨pid, m⟩, hm, heq⟩ := List.mem_filterMap.mp h
    split at heq
    · rename_i hcatchup
      obtain ⟨rfl, rfl⟩ := Prod.mk.inj hcatchup
      obtain rfl := Option.some.inj heq
      exact ⟨_, hm, rfl⟩
    · cases heq
  · rintro ⟨⟨pid, m⟩, hm, rfl⟩
    exact List.mem_filterMap.mpr ⟨_, hm, rfl⟩

theorem catchups_ne_nil {db : Database} {config : ClusterConfig} :
    (Server.catchups env db config : List (Nat × Message Msg)) ≠ [] ↔
      env.peers ≠ [] ∧ env.pid ∈ config.nodes := by
  obtain ⟨kvList, hall, -, -⟩ := db.getAllKeyValues_ok
  unfold Server.catchups
  split
  · rename_i hmem
    simp [hall, hmem]
  · rename_i hmem
    simp [hmem]

theorem finishDecided_sent (s : Server OP Msg) (d : Nat) :
    ∃ more, (s.finishDecided d).network.sent = s.network.sent ++ more ∧ kvLists more = [] := by
  unfold Server.finishDecided
  split
  · exact ⟨[], (List.append_nil _).symm, rfl⟩
  · exact ⟨_, rfl, rfl⟩

theorem kvLists_catchups {db : Database} {config : ClusterConfig}
    {sends : List (Nat × Message Msg)} (hsub : ∀ m ∈ sends, m ∈ Server.catchups env db config) :
    (∀ kvList ∈ kvLists sends, db.getAllKeyValues = .ok kvList) ∧
      (kvLists sends ≠ [] ↔ sends ≠ []) := by
  constructor
  · intro kvList hkv
    obtain ⟨m, hm, heq⟩ := mem_kvLists.mp hkv
    obtain ⟨kvList', hall, heq'⟩ := mem_catchups (hsub m hm)
    rw [heq] at heq'
    cases heq'
    exact hall
  · constructor
    · rintro hne rfl
      exact hne rfl
    · intro hne
      obtain ⟨m, hm⟩ := List.exists_mem_of_ne_nil _ hne
      obtain ⟨kvList, -, heq⟩ := mem_catchups (hsub m hm)
      exact List.ne_nil_of_mem (mem_kvLists.mpr ⟨m, hm, heq⟩)

/-- What a call that reads the StopSign makes of the database. -/
theorem replayed_stopSign (h : Node.Synced logs n) {t : SnapshotTree}
    (hshow : Shows n.server.omniPaxos (logs n.conf) t) (hjump : n.NoJump)
    (hlt : n.server.readIdx < getDecidedIdx n.server.omniPaxos)
    (hd : getDecidedIdx n.server.omniPaxos = (logs n.conf).cmds.length + 1) :
    n.server.replayed (logs n.conf) t = n.boot.applyCommands (history logs (n.conf + 1)) := by
  rw [h.replayed hshow hjump hlt, hd, List.take_of_length_le (Nat.le_succ _), history]

theorem handle_kvLists (h : Node.Synced logs n) (hjump : n.NoJump) {w : World Storage}
    {s' : Server OP Msg} (hs : n.server.handleDecidedEntries env w = .ok s') :
    (∀ kvList ∈ kvLists (s'.network.sent.drop n.server.network.sent.length),
      (n.boot.applyCommands (history logs (n.conf + 1))).getAllKeyValues = .ok kvList) ∧
    (kvLists (s'.network.sent.drop n.server.network.sent.length) ≠ [] ↔
      env.peers ≠ [] ∧ ∃ stopsign, .stopSign stopsign true ∈ n.server.entriesRead ∧
        env.pid ∈ stopsign.nextConfig.nodes) := by
  obtain ⟨t, hshow⟩ := h.runs
  have hno : n.server.readsStop = false → ¬(env.peers ≠ [] ∧ ∃ stopsign,
      .stopSign stopsign true ∈ n.server.entriesRead ∧ env.pid ∈ stopsign.nextConfig.nodes) := by
    rintro hstop ⟨-, stopsign, hmem, -⟩
    have hany := Server.readsStop_iff.mpr ⟨stopsign, hmem⟩
    rw [hstop] at hany
    cases hany
  cases Server.handleDecidedEntries_cases hshow hs with
  | nothing hle =>
    have hnone : n.server.network.sent.drop n.server.network.sent.length = [] := by simp
    rw [hnone]
    exact ⟨by simp [kvLists], iff_of_false (by simp [kvLists]) (hno (Server.readsStop_nothing hle))⟩
  | commands hlt hd =>
    rw [Server.send_sent, List.drop_left]
    exact ⟨by simp [kvLists],
      iff_of_false (by simp [kvLists]) (hno (Server.readsStop_commands hshow hlt hd))⟩
  | stopSign hlt hss hd hstorage hbuild =>
    rename_i stopsign storage op
    obtain ⟨more, hsent, hmore⟩ := finishDecided_sent { n.server with
      omniPaxos := op
      network := { sent := n.server.network.sent ++
        Server.catchups env (n.server.replayed (logs n.conf) t) stopsign.nextConfig }
      database := n.server.replayed (logs n.conf) t
      lastDecidedIdx := 0
      currentConfigId := (n.server.currentConfigId + 1) % 2 ^ 64 }
      (getDecidedIdx n.server.omniPaxos)
    rw [hsent, List.append_assoc, List.drop_left, kvLists_append, hmore, List.append_nil,
      replayed_stopSign h hshow hjump hlt hd]
    obtain ⟨hexact, hne⟩ := kvLists_catchups fun m (hm : m ∈ (Server.catchups env
      (n.boot.applyCommands (history logs (n.conf + 1))) stopsign.nextConfig :
        List (Nat × Message Msg))) => hm
    refine ⟨hexact, ?_⟩
    rw [hne, catchups_ne_nil]
    refine and_congr_right fun _ => ⟨fun hpid => ⟨stopsign, ?_, hpid⟩, ?_⟩
    · exact Server.stopSign_mem_entriesRead hshow hlt hss hd
    · rintro ⟨stopsign', hmem, hpid⟩
      have hss' := (Server.stop_of_mem_entriesRead hshow hmem).2.1
      rw [hss] at hss'
      rwa [Option.some.inj hss']

theorem killed_kvLists (h : Node.Synced logs n) {w : World Storage} {db : Database}
    {sends : List (Nat × Message Msg)} (hjump : sends ≠ [] → n.NoJump)
    (hkilled : n.server.Killed env w db sends) :
    (∀ kvList ∈ kvLists sends,
      (n.boot.applyCommands (history logs (n.conf + 1))).getAllKeyValues = .ok kvList) ∧
    (kvLists sends ≠ [] ↔ sends ≠ []) := by
  obtain ⟨t, hshow⟩ := h.runs
  cases hkilled with
  | writing k => exact ⟨by simp [kvLists], by simp [kvLists]⟩
  | sending j hmem =>
    obtain ⟨hlt, hss, hd⟩ := Server.stop_of_mem_entriesRead hshow hmem
    obtain ⟨hexact, hne⟩ := kvLists_catchups fun m hm => List.mem_of_mem_take hm
    refine ⟨?_, hne⟩
    intro kvList hkv
    have hsends := hne.mp (List.ne_nil_of_mem hkv)
    have hdb := hexact kvList hkv
    rwa [Server.pendingWrites_stopSign env w hshow hlt hss hd,
      replayed_stopSign h hshow (hjump hsends) hlt hd] at hdb

/-- What is sent while applying a StopSign is what the configurations so far make of the disk. -/
theorem transferred_spec {e : Event Msg Storage} (h : Node.Synced logs n)
    (hs : Node.Step env logs n e n') (hsteady : Steady ⟨n, e, n'⟩) :
    (∀ kvList ∈ transferred ⟨n, e, n'⟩,
      (n.boot.applyCommands (history logs (n.conf + 1))).getAllKeyValues = .ok kvList) ∧
    (transferred ⟨n, e, n'⟩ ≠ [] ↔ Broadcasts ⟨n, e, n'⟩ env) := by
  cases hs with
  | advance _ _ => exact ⟨by simp [transferred], by simp [transferred, Broadcasts]⟩
  | get _ => exact ⟨by simp [transferred], by simp [transferred, Broadcasts]⟩
  | catchup _ => exact ⟨by simp [transferred], by simp [transferred, Broadcasts]⟩
  | handle hs _ =>
    simp only [transferred, Broadcasts, Node.afterHandle_server]
    exact handle_kvLists h (hsteady.jumps _ rfl) hs
  | restart hkilled _ _ _ => exact killed_kvLists h (hsteady.killed _ rfl) hkilled

/-! ## When it is right -/

theorem exact_iff {e : Event Msg Storage} (h : Node.Synced logs n)
    (hs : Node.Step env logs n e n') (hsteady : Steady ⟨n, e, n'⟩) :
    Exact ⟨n, e, n'⟩ logs ↔ (Broadcasts ⟨n, e, n'⟩ env → OwnKeys ⟨n, e, n'⟩ logs) := by
  obtain ⟨hsent, hne⟩ := transferred_spec h hs hsteady
  have hown : Database.empty.applyCommands (history logs (n.conf + 1)) =
      n.boot.applyCommands (history logs (n.conf + 1)) ↔ OwnKeys ⟨n, e, n'⟩ logs := by
    rw [Database.applyCommands_eq_iff]
    constructor
    · intro heq key hkey
      by_contra hnot
      exact hkey (by rw [← heq hnot, Database.get_empty])
    · intro hown key hkey
      rw [Database.get_empty]
      by_contra hne
      exact hkey (hown key (Ne.symm hne))
  rw [← hown, ← hne]
  constructor
  · intro hexact hsome
    obtain ⟨kvList, hkv⟩ := List.exists_mem_of_ne_nil _ hsome
    exact Database.getAllKeyValues_inj ((hexact kvList hkv).trans (hsent kvList hkv).symm)
  · intro heq kvList hkv
    show (Database.empty.applyCommands (history logs (n.conf + 1))).getAllKeyValues = _
    rw [heq (List.ne_nil_of_mem hkv)]
    exact hsent kvList hkv

/-- In runs without jumps, state transfers are exact if and only if no process has found on disk, at
the StopSign of a configuration, a key that only later ones write. In any case a state transfer
carries the configurations' own values of the keys they write, and the values found on disk of all
others. -/
theorem transfers_iff {tr : List (Machine.Transition (Node OP Msg) (Event Msg Storage))}
    (hrun : (Node.machine env logs Database.empty).Run tr n) (hsteady : ∀ t ∈ tr, Steady t) :
    ((∀ t ∈ tr, Exact t logs) ↔ ∀ t ∈ tr, Broadcasts t env → OwnKeys t logs) ∧
    ∀ t ∈ tr, ∀ kvList ∈ transferred t, ∃ db : Database, db.getAllKeyValues = .ok kvList ∧
      Set.EqOn db.get (Database.empty.applyCommands (history logs (t.before.conf + 1))).get
        (logKeys (history logs (t.before.conf + 1))) ∧
      Set.EqOn db.get t.before.boot.get (logKeys (history logs (t.before.conf + 1)))ᶜ := by
  have hmem : ∀ t ∈ tr, Node.Synced logs t.before ∧
      Node.Step env logs t.before t.event t.after :=
    hrun.of_mem (C := Steady) (fun _ => Node.Synced.init)
      (fun _ _ _ hI hs hC => hI.step hs hC.jumps hC.catchup) hsteady
  constructor
  · apply forall₂_congr
    intro t ht
    obtain ⟨hsynced, hstep⟩ := hmem t ht
    exact exact_iff hsynced hstep (hsteady t ht)
  · intro t ht kvList hkv
    obtain ⟨hsynced, hstep⟩ := hmem t ht
    refine ⟨_, (transferred_spec hsynced hstep (hsteady t ht)).1 kvList hkv, ?_, ?_⟩
    · rw [Database.get_applyCommands, Database.get_applyCommands]
      exact Delta.act_eqOn_touched _ _ _
    · rw [Database.get_applyCommands]
      exact Delta.act_eqOn _ _

theorem Steady.handle {w : World Storage} (h : n.NoJump) : Steady ⟨n, .handle w, n'⟩ :=
  ⟨fun _ _ => h, nofun, nofun⟩

theorem Steady.advance : Steady (⟨n, .advance, n'⟩ : Machine.Transition _ (Event Msg Storage)) :=
  ⟨nofun, nofun, nofun⟩

theorem Steady.restart : Steady (⟨n, .restart [], n'⟩ : Machine.Transition _ (Event Msg Storage)) :=
  ⟨nofun, fun sends he hne => by cases he; exact absurd rfl hne, nofun⟩

/-- A node applies the first configuration and two commands of the second, is killed between two
calls, and replays the first one. -/
theorem replaying_run : ∃ (tr : List (Machine.Transition (Node Replica ReplicaMsg)
      (Event ReplicaMsg Replica))) (n : Node Replica ReplicaMsg),
    (Node.machine sampleEnv sampleLogs Database.empty).Run tr n ∧ (∀ t ∈ tr, Steady t) ∧
    tr.getLast?.map (fun t => (t.before.conf, transferred t)) =
      some (0, [[("a", "1"), ("b", "2")], [("a", "1"), ("b", "2")]]) := by
  have hshow₁ := sampleLogs_shows 0 (d := 2) le_rfl
  have hshow₂ : ∀ d, d ≤ 3 → Shows _ (sampleLogs 1) _ := fun d => sampleLogs_shows 1
  have hrun := Machine.Run.nil (M := Node.machine sampleEnv sampleLogs Database.empty)
    ⟨.error .client, Replica.opened (sampleLogs 0) 2 (.create []), ⟨_, hshow₁⟩, rfl⟩
  have hrun := hrun.snoc (.stopSign (w := sampleWorld (.opened (sampleLogs 1) 0 (.create [])))
    hshow₁ Nat.two_pos rfl rfl rfl rfl ⟨_, hshow₂ 0 (Nat.zero_le _)⟩)
  have hrun := hrun.snoc (.nothing (sampleWorld (.opened (sampleLogs 1) 0 (.create []))) (by decide))
  have hrun := hrun.snoc (.advance ⟨_, hshow₂ 2 (by decide)⟩ (by decide))
  have hrun := hrun.snoc (.commands (sampleWorld (.opened (sampleLogs 1) 0 (.create [])))
    (hshow₂ 2 (by decide)) (by decide) (by decide))
  have hrun := hrun.snoc (.restart
    (w := sampleWorld (.opened (sampleLogs 1) 0 (.create []))) (.writing 0)
    (Server.recover_false (.initial sampleEnv (.error .client)
      (Replica.opened (sampleLogs 0) 2 (.create [])) _)) ⟨_, hshow₁⟩ rfl)
  have hrun := hrun.snoc (.stopSign (w := sampleWorld (.opened (sampleLogs 1) 0 (.create [])))
    hshow₁ Nat.two_pos rfl rfl rfl rfl ⟨_, hshow₂ 0 (Nat.zero_le _)⟩)
  refine ⟨_, _, hrun, ?_, ?_⟩
  · simp only [List.nil_append, List.cons_append, List.mem_cons, List.not_mem_nil, or_false,
      forall_eq_or_imp, forall_eq]
    refine ⟨.handle (Or.inr (Or.inl (by decide))), .handle (Or.inl (by decide)), .advance,
      .handle (Or.inr (Or.inl (by decide))), .restart, .handle (Or.inr (Or.inl (by decide)))⟩
  · decide +kernel

/-- The second StopSign of the run sends a pair of the second configuration as state of the first. -/
theorem later_value_sent : ∃ (tr : List (Machine.Transition (Node Replica ReplicaMsg)
      (Event ReplicaMsg Replica))) (n : Node Replica ReplicaMsg),
    (Node.machine sampleEnv sampleLogs Database.empty).Run tr n ∧ (∀ t ∈ tr, Steady t) ∧
    ¬∀ t ∈ tr, Exact t sampleLogs := by
  obtain ⟨tr, n, hrun, hsteady, hlast⟩ := replaying_run
  obtain ⟨t, ht, heq⟩ := Option.map_eq_some_iff.mp hlast
  obtain ⟨hconf, hsent⟩ := Prod.mk.inj heq
  refine ⟨tr, n, hrun, hsteady, ?_⟩
  intro hall
  have hexact := hall t (List.mem_of_getLast? ht) [("a", "1"), ("b", "2")] (by rw [hsent]; simp)
  rw [hconf] at hexact
  revert hexact
  decide

theorem transfers_iff_sample : ∃ (tr : List (Machine.Transition (Node Replica ReplicaMsg)
      (Event ReplicaMsg Replica))) (n : Node Replica ReplicaMsg),
    (Node.machine sampleEnv sampleLogs Database.empty).Run tr n ∧
    tr.getLast?.map transferred = some [[("a", "1"), ("b", "2")], [("a", "1"), ("b", "2")]] ∧
    ((∀ t ∈ tr, Exact t sampleLogs) ↔
      ∀ t ∈ tr, Broadcasts t sampleEnv → OwnKeys t sampleLogs) := by
  obtain ⟨tr, n, hrun, hsteady, hlast⟩ := replaying_run
  refine ⟨tr, n, hrun, ?_, (transfers_iff hrun hsteady).1⟩
  have hsent := congrArg (Option.map Prod.snd) hlast
  rwa [Option.map_map] at hsent

end Transfer
end OmniKV
