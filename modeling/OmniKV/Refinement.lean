import OmniKV.EventLoop
import OmniKV.Single

/-!
# Refinement

The event loop of a process refines the node of `Node`.

A node sees neither the protocol messages nor the heartbeats of its process, and knows nothing of the
count of replicas. `Server.outline` is a server without these. `handle_decided_entries` does on an
outline what it does on the server, so that a run of the loop whose instances keep to their logs is
answered, step for step, by a run of a node.
-/

namespace OmniKV

open OmniPaxos (getDecidedIdx readDecidedSuffix isReconfigured)

variable {OP Msg Storage : Type} [OmniPaxos OP Msg Storage]

/-! ## Outlines -/

def Message.isData : Message Msg → Bool
  | .apiResponse _ | .stateCatchup _ => true
  | _ => false

/-- The answers to clients and the state transfers among the messages sent. -/
def dataMsgs (sent : List (Nat × Message Msg)) : List (Nat × Message Msg) :=
  sent.filter fun m => m.2.isData

theorem dataMsgs_append (sent more : List (Nat × Message Msg)) :
    dataMsgs (sent ++ more) = dataMsgs sent ++ dataMsgs more := List.filter_append ..

theorem dataMsgs_eq_self {sent : List (Nat × Message Msg)} (h : ∀ m ∈ sent, m.2.isData = true) :
    dataMsgs sent = sent := List.filter_eq_self.mpr h

theorem dataMsgs_eq_nil {sent : List (Nat × Message Msg)} (h : ∀ m ∈ sent, m.2.isData = false) :
    dataMsgs sent = [] := List.filter_eq_nil_iff.mpr fun m hm => by simp [h m hm]

theorem decidedArgs_dataMsgs (sent : List (Nat × Message Msg)) :
    Single.decidedArgs (dataMsgs sent) = Single.decidedArgs sent := by
  induction sent with
  | nil => rfl
  | cons m sent ih =>
    obtain ⟨r, m⟩ := m
    cases m with
    | apiResponse resp =>
      cases resp with
      | decided i => exact congrArg (i :: ·) ih
      | get key value => exact ih
    | _ => exact ih

/-- Answers are good among all that is sent when they are among the data messages. -/
theorem each_goodAnswer {L : List KVCommand} {sent : List (Nat × Message Msg)}
    (h : History.Each (Single.GoodAnswer L) (dataMsgs sent)) :
    History.Each (Single.GoodAnswer L) sent := by
  intro before m after heq key value hm
  have hdata : dataMsgs sent = dataMsgs before ++ m :: dataMsgs after := by
    rw [heq, dataMsgs_append, dataMsgs, dataMsgs, List.filter_cons_of_pos (by rw [hm]; rfl)]
    rfl
  have hanswer := h _ _ _ hdata key value hm
  rwa [Single.latestDecided, decidedArgs_dataMsgs] at hanswer

namespace Server

/-- A server with its data messages only, at `count` replicas and with `timeot` on its clock. -/
def outline (count timeot : Nat) (s : Server OP Msg) : Server OP Msg :=
  { s with
    network := { sent := dataMsgs s.network.sent }
    currentNumReplicas := count
    stopSignTimeot := timeot }

variable {env : Env} {w : World Storage} {s s' : Server OP Msg} {count timeot : Nat}

@[simp] theorem outline_omniPaxos (s : Server OP Msg) :
    (s.outline count timeot).omniPaxos = s.omniPaxos := rfl
@[simp] theorem outline_sent (s : Server OP Msg) :
    (s.outline count timeot).network.sent = dataMsgs s.network.sent := rfl
@[simp] theorem outline_readIdx (s : Server OP Msg) :
    (s.outline count timeot).readIdx = s.readIdx := rfl
@[simp] theorem outline_readsStop (s : Server OP Msg) :
    (s.outline count timeot).readsStop = s.readsStop := rfl

theorem outline_send (s : Server OP Msg) (r : Nat) {m : Message Msg} (hm : m.isData = true) :
    (s.send r m).outline count timeot = (s.outline count timeot).send r m := by
  have hdata : dataMsgs [(r, m)] = [(r, m)] := dataMsgs_eq_self (by simpa using hm)
  have hsent : dataMsgs (s.network.sent ++ [(r, m)]) = dataMsgs s.network.sent ++ [(r, m)] := by
    rw [dataMsgs_append, hdata]
  simp only [outline, send, Network.send, hsent]

theorem dataMsgs_catchups (db : Database) (newConfiguration : ClusterConfig) :
    dataMsgs (catchups env db newConfiguration) =
      (catchups env db newConfiguration : List (Nat × Message Msg)) := by
  refine dataMsgs_eq_self fun x hx => ?_
  let ok : Message Msg → Prop := fun m => m.isData = true
  have hok : ∀ kvList, ok (.stateCatchup kvList) := fun _ => rfl
  exact catchups_ok hok x hx

/-! ## Calls on an outline -/

theorem Killed.outline {db : Database} {sends : List (Nat × Message Msg)}
    (h : s.Killed env w db sends) : (s.outline count timeot).Killed env w db sends := by
  cases h with
  | writing k => exact .writing k
  | sending j hstop => exact .sending j hstop

theorem applyStopSign_outline (env : Env) (w : World Storage) (s : Server OP Msg)
    (stopsign : StopSign) : (s.outline count timeot).applyStopSign env w stopsign =
      (s.applyStopSign env w stopsign).map (outline count timeot) := by
  have hsent := dataMsgs_append s.network.sent (catchups env s.database stopsign.nextConfig)
  rw [dataMsgs_catchups] at hsent
  simp only [applyStopSign, broadcastState_eq, outline]
  rw [← hsent]
  cases w.openStorage (storagePath env ((s.currentConfigId + 1) % 2 ^ 64)) with
  | none => rfl
  | some storage =>
    cases readDecidedSuffix s.omniPaxos 0 with
    | none => rfl
    | some entries =>
      dsimp only
      cases (OmniPaxos.buildForServer stopsign.nextConfig s.currentConfig storage : Option OP) with
      | none => rfl
      | some op => rfl

theorem applyEntry_outline (env : Env) (w : World Storage) (s : Server OP Msg) (e : LogEntry) :
    (s.outline count timeot).applyEntry env w e =
      (s.applyEntry env w e).map (outline count timeot) := by
  cases e with
  | stopSign stopsign decided =>
    cases decided with
    | true => exact applyStopSign_outline env w s stopsign
    | false => rfl
  | _ => rfl

theorem updateDatabase_outline (count timeot : Nat) (env : Env) (w : World Storage)
    (s : Server OP Msg) (es : List LogEntry) : (s.outline count timeot).updateDatabase env w es =
      (s.updateDatabase env w es).map (outline count timeot) := by
  induction es generalizing s with
  | nil => rfl
  | cons e es ih =>
    rw [updateDatabase, updateDatabase, applyEntry_outline]
    cases s.applyEntry env w e with
    | error p => rfl
    | ok s₁ => exact ih s₁

theorem finishDecided_outline (s : Server OP Msg) (d : Nat) :
    (s.outline count timeot).finishDecided d = (s.finishDecided d).outline count timeot := by
  unfold finishDecided
  rw [outline_omniPaxos]
  cases isReconfigured s.omniPaxos with
  | some stopsign => rfl
  | none =>
    have hresponse : (Message.apiResponse (.decided d) : Message Msg).isData = true := rfl
    exact (outline_send { s with lastDecidedIdx := d } 0 hresponse).symm

/-- `handle_decided_entries` does not look at what the outline leaves out. -/
theorem handleDecidedEntries_outline (count timeot : Nat) (env : Env) (w : World Storage)
    (s : Server OP Msg) :
    (s.outline count timeot).handleDecidedEntries env w =
      (s.handleDecidedEntries env w).map (outline count timeot) := by
  unfold handleDecidedEntries
  dsimp only [outline_readIdx, outline_omniPaxos]
  split
  · cases readDecidedSuffix s.omniPaxos s.readIdx with
    | none => rfl
    | some es =>
      have hupdate := updateDatabase_outline count timeot env w
        { s with lastDecidedIdx := s.readIdx } es
      dsimp only [outline] at hupdate ⊢
      rw [hupdate]
      cases updateDatabase env w { s with lastDecidedIdx := s.readIdx } es with
      | error p => rfl
      | ok s₁ => exact congrArg Except.ok (finishDecided_outline s₁ _)
  · rfl

theorem handleDecidedEntries_of_outline {s₁ : Server OP Msg}
    (h : (s.outline count timeot).handleDecidedEntries env w = .ok s₁) :
    ∃ s', s.handleDecidedEntries env w = .ok s' ∧ s₁ = s'.outline count timeot := by
  rw [handleDecidedEntries_outline] at h
  cases hs : s.handleDecidedEntries env w with
  | error p =>
    rw [hs] at h
    cases h
  | ok s' =>
    rw [hs] at h
    cases h
    exact ⟨s', rfl, rfl⟩

/-- Outside the instance, `s'` has the outline of `s`. -/
def Still (s s' : Server OP Msg) : Prop := ∀ count timeot,
  s'.outline count timeot = { s.outline count timeot with omniPaxos := s'.omniPaxos }

theorem Still.send (s : Server OP Msg) (r : Nat) {m : Message Msg} (hm : m.isData = false) :
    Still s (s.send r m) := by
  intro count timeot
  have hnone : dataMsgs [(r, m)] = [] := dataMsgs_eq_nil (by simpa using hm)
  have hsent : dataMsgs (s.network.sent ++ [(r, m)]) = dataMsgs s.network.sent := by
    rw [dataMsgs_append, hnone, List.append_nil]
  simp only [outline, Server.send, Network.send, hsent]

theorem debugHeartbeat_still (env : Env) (s : Server OP Msg) : Still s (s.debugHeartbeat env) := by
  intro count timeot
  have hnone : ∀ m ∈ env.peers.map fun pid =>
      (pid, (.debug ("Heartbeat from node " ++ toString env.pid) : Message Msg)),
      m.2.isData = false := by
    intro m hm
    obtain ⟨pid, -, rfl⟩ := List.mem_map.mp hm
    rfl
  rw [debugHeartbeat, sendAll_eq]
  simp only [outline, dataMsgs_append, dataMsgs_eq_nil hnone, List.append_nil]

theorem checkReplicas_outline (count timeot : Nat) (env : Env) (w : World Storage)
    (s : Server OP Msg) :
    (s.checkReplicas env w).1.outline count timeot = s.outline count timeot := by
  unfold checkReplicas
  repeat' split
  all_goals rfl

/-- Messages that neither read nor write the database change the instance and the count of replicas
only. -/
theorem handleMsg_still {m : Message Msg} (hget : ∀ key, m ≠ .apiRequest (.get key))
    (hcatchup : ∀ kvList, m ≠ .stateCatchup kvList) (h : s.handleMsg env w m = .ok s') :
    Still s s' := by
  intro count timeot
  cases handleMsg_cases h with
  | get key => exact absurd rfl (hget key)
  | stateCatchup kvList => exact absurd rfl (hcatchup kvList)
  | append _ _ | omniPaxosMsg _ | reconnected _ | leads _ => rfl
  | quiet _ =>
    rw [(checkReplicas_fst env w s).1]
    exact checkReplicas_outline _ _ env w s
  | propose _ _ _ =>
    rename_i op _ _ _
    have hcheck := checkReplicas_outline count timeot env w s
    exact congrArg (fun s => { s with omniPaxos := op }) hcheck

end Server

/-! ## Steps -/

namespace Refinement

/-- What an event of the loop is to the node. -/
def label : Loop.Event Msg Storage → Event Msg Storage
  | .process w m =>
    match m.body with
    | .apiRequest (.get key) => .get key
    | .stateCatchup kvList => .catchup w kvList
    | _ => .advance
  | .apply w => .handle w
  | _ => .advance

theorem label_local {e : Loop.Event Msg Storage}
    (h : ∀ w kvList origin, e ≠ .process w ⟨origin, .stateCatchup kvList⟩) :
    Single.Local (label e) := by
  cases e with
  | process w m =>
    obtain ⟨origin, body⟩ := m
    cases body with
    | stateCatchup kvList => exact absurd rfl (h w kvList origin)
    | apiRequest cmd => cases cmd <;> trivial
    | _ => trivial
  | _ => trivial

structure Outlines (l : Loop OP Msg) (n : Node OP Msg) : Prop where
  server : ∃ count timeot, n.server = l.server.outline count timeot
  conf : n.conf = l.conf

/-- What the consensus library promises about a step: the instance runs the log of its configuration,
and as long as that stays, decided entries stay decided. -/
structure Keeps (logs : Nat → ConfigLog)
    (t : Machine.Transition (Loop OP Msg) (Loop.Event Msg Storage)) : Prop where
  runs : Runs t.after.server.omniPaxos (logs t.after.conf)
  decided : t.after.conf = t.before.conf →
    getDecidedIdx t.before.server.omniPaxos ≤ getDecidedIdx t.after.server.omniPaxos

variable {env : Env} {logs : Nat → ConfigLog} {l l' : Loop OP Msg} {n : Node OP Msg}

theorem Outlines.advance (h : Outlines l n) {e : Loop.Event Msg Storage}
    (hkeeps : Keeps logs ⟨l, e, l'⟩) (hconf : l'.conf = l.conf)
    (hstill : Server.Still l.server l'.server) :
    ∃ n', Node.Step env logs n (.advance : Event Msg Storage) n' ∧ Outlines l' n' := by
  obtain ⟨server, conf, applied, boot⟩ := n
  obtain ⟨⟨count, timeot, rfl⟩, rfl⟩ := h
  have hruns := hkeeps.runs
  rw [hconf] at hruns
  exact ⟨_, .advance hruns (hkeeps.decided hconf), ⟨count, timeot, (hstill count timeot).symm⟩,
    hconf.symm⟩

/-- A message is a read, a state transfer that comes in, or nothing but progress. -/
theorem Outlines.process (h : Outlines l n) {w : World Storage} {m : Envelope Msg}
    (hkeeps : Keeps logs ⟨l, .process w m, l'⟩) (hconf : l'.conf = l.conf)
    (hs : l.server.handleMsg env w m.body = .ok l'.server) :
    ∃ n', Node.Step env logs n (label (.process w m)) n' ∧ Outlines l' n' := by
  obtain ⟨origin, body⟩ := m
  cases body with
  | apiRequest cmd =>
    cases cmd with
    | get key =>
      obtain ⟨server, conf, applied, boot⟩ := n
      obtain ⟨⟨count, timeot, rfl⟩, rfl⟩ := h
      rw [Server.handleMsg_get] at hs
      refine ⟨_, .answer w key, ⟨count, timeot, ?_⟩, hconf.symm⟩
      rw [← Except.ok.inj hs, Server.outline_send _ _ rfl]
      rfl
    | put _ | delete _ =>
      exact h.advance hkeeps hconf (Server.handleMsg_still (by simp) (by simp) hs)
  | stateCatchup kvList =>
    obtain ⟨server, conf, applied, boot⟩ := n
    obtain ⟨⟨count, timeot, rfl⟩, rfl⟩ := h
    rw [Server.handleMsg_stateCatchup] at hs
    refine ⟨_, .catchup (Server.handleMsg_stateCatchup env w _ kvList), ⟨count, timeot, ?_⟩,
      hconf.symm⟩
    rw [← Except.ok.inj hs]
    rfl
  | omniPaxosMsg _ | apiResponse _ | debug _ | reconnect _ =>
    exact h.advance hkeeps hconf (Server.handleMsg_still (by simp) (by simp) hs)

theorem Outlines.apply (h : Outlines l n) {w : World Storage}
    (hkeeps : Keeps logs ⟨l, .apply w, l'⟩)
    (hconf : l'.conf = if l.server.readsStop then l.conf + 1 else l.conf)
    (hs : l.server.handleDecidedEntries env w = .ok l'.server) :
    ∃ n', Node.Step env logs n (.handle w) n' ∧ Outlines l' n' := by
  obtain ⟨server, conf, applied, boot⟩ := n
  obtain ⟨⟨count, timeot, rfl⟩, rfl⟩ := h
  have hruns := hkeeps.runs
  have hcall := Server.handleDecidedEntries_outline count timeot env w l.server
  rw [hs] at hcall
  refine ⟨_, .handle hcall fun hstop => ?_, ⟨count, timeot, Node.afterHandle_server _ _⟩, ?_⟩
  · rw [Server.outline_readsStop] at hstop
    rwa [hconf, if_pos hstop] at hruns
  · rw [hconf, Node.afterHandle_conf]
    rfl

variable [OPMessage Msg]

theorem Outlines.step (h : Outlines l n) {e : Loop.Event Msg Storage}
    (hs : Loop.Step env l e l') (hkeeps : Keeps logs ⟨l, e, l'⟩) :
    ∃ n', Node.Step env logs n (label e) n' ∧ Outlines l' n' := by
  cases hs with
  | process _ hs => exact h.process hkeeps rfl hs
  | apply _ hs => exact h.apply hkeeps rfl hs
  | receive => exact h.advance hkeeps rfl fun _ _ => rfl
  | wake _ => exact h.advance hkeeps rfl fun _ _ => rfl
  | drain _ => exact h.advance hkeeps rfl fun _ _ => rfl
  | send _ => exact h.advance hkeeps rfl (.send _ _ rfl)
  | sent _ => exact h.advance hkeeps rfl fun _ _ => rfl
  | tick _ => exact h.advance hkeeps rfl fun _ _ => rfl
  | heartbeat _ => exact h.advance hkeeps rfl (Server.debugHeartbeat_still env l.server)

/-! ## Runs -/

theorem outlines_init (h : (Loop.machine env : Machine (Loop OP Msg) (Loop.Event Msg Storage)).init l)
    (hruns : Runs l.server.omniPaxos (logs 0)) :
    ∃ n : Node OP Msg, (Node.machine env logs l.server.database : Machine (Node OP Msg)
      (Event Msg Storage)).init n ∧ Outlines l n := by
  obtain ⟨api, op, db, restarted, s, hrecover, rfl⟩ := h
  have hs := Server.recover_ok hrecover
  refine ⟨_, ⟨api, s.omniPaxos, hruns, rfl⟩, ⟨initialNumReplicas api, 0, ?_⟩, rfl⟩
  rw [hs]
  rfl

/-- A run of the loop whose instances keep to their logs is a run of a node, event for event, on the
database the process has found, with the same answers to clients and the same state transfers. -/
theorem loop_refines_node {tr : List (Machine.Transition (Loop OP Msg) (Loop.Event Msg Storage))}
    (hrun : (Loop.machine env).Run tr l) (hkeeps : ∀ t ∈ tr, Keeps logs t)
    (hruns : Runs (Machine.start tr l).server.omniPaxos (logs 0)) :
    ∃ (tr' : List (Machine.Transition (Node OP Msg) (Event Msg Storage))) (n : Node OP Msg),
      (Node.machine env logs (Machine.start tr l).server.database).Run tr' n ∧ Outlines l n ∧
      List.Forall₂ (Machine.Answers Outlines fun e e' => e' = label e) tr tr' := by
  obtain ⟨n₀, hinit, hstart⟩ := outlines_init hrun.start_init hruns
  refine hrun.lockstep (fun l e l' n hR hs hkeeps => ?_) hinit hstart hkeeps
  obtain ⟨n', hs', hR'⟩ := hR.step hs hkeeps
  exact ⟨_, n', hs', rfl, hR'⟩

/-- A client reads, then the instance learns that the StopSign is decided and is replaced. -/
theorem read_swap_run : ∃ (tr : List (Machine.Transition (Loop Replica ReplicaMsg)
      (Loop.Event ReplicaMsg Replica))) (l : Loop Replica ReplicaMsg),
    (Loop.machine sampleEnv).KeptRun (Keeps sampleLogs) tr l ∧
    Machine.start tr l = ⟨Server.initial sampleEnv (.error .client)
      (Replica.opened (sampleLogs 0) 1 (.create [])) Database.empty, .select, [], 0⟩ ∧
    l.conf = 1 := by
  have hrun : (Loop.machine sampleEnv).KeptRun (Keeps sampleLogs) [] _ := ⟨Machine.Run.nil
    (M := (Loop.machine sampleEnv : Machine (Loop Replica ReplicaMsg) _))
    ⟨.error .client, Replica.opened (sampleLogs 0) 1 (.create []), Database.empty, false, _, rfl, rfl⟩,
    by simp⟩
  have hshow := sampleLogs_shows 0 (d := 1) (by decide)
  have hrun := hrun.snoc (.receive (m := ⟨0, .apiRequest (.get "a")⟩)) ⟨⟨_, hshow⟩, fun _ => le_rfl⟩
  have hrun := hrun.snoc (.receive (m := ⟨0, .omniPaxosMsg ⟨1, 2⟩⟩)) ⟨⟨_, hshow⟩, fun _ => le_rfl⟩
  have hrun := hrun.snoc (.wake rfl) ⟨⟨_, hshow⟩, fun _ => le_rfl⟩
  have hrun := hrun.snoc (.process (w := sampleWorld (.opened (sampleLogs 1) 0 (.create []))) rfl rfl)
    ⟨⟨_, hshow⟩, fun _ => le_rfl⟩
  have hshow' : Shows { Replica.opened (sampleLogs 0) 1 (.create []) with decidedIdx := 2 }
    (sampleLogs 0) (.create []) := Replica.shows_uncompacted rfl le_rfl
  have hrun := hrun.snoc (.process (w := sampleWorld (.opened (sampleLogs 1) 0 (.create []))) rfl rfl)
    ⟨⟨_, hshow'⟩, fun _ => Nat.le_succ 1⟩
  have hrun := hrun.snoc (.drain rfl) ⟨⟨_, hshow'⟩, fun _ => le_rfl⟩
  have hrun := hrun.snoc (.sent rfl) ⟨⟨_, hshow'⟩, fun _ => le_rfl⟩
  have hrun := hrun.snoc (.apply rfl (Server.handleDecidedEntries_swap sampleEnv
    (w := sampleWorld (.opened (sampleLogs 1) 0 (.create []))) (L := sampleLogs 0)
    hshow' Nat.two_pos rfl rfl rfl rfl)) ⟨⟨_, sampleLogs_shows 1 (Nat.zero_le _)⟩,
    fun hconf => by cases hconf⟩
  exact ⟨_, _, hrun, rfl, rfl⟩

theorem loop_refines_node_sample : ∃ (tr' : List (Machine.Transition (Node Replica ReplicaMsg)
      (Event ReplicaMsg Replica))) (n : Node Replica ReplicaMsg),
    (Node.machine sampleEnv sampleLogs Database.empty).Run tr' n ∧ n.conf = 1 := by
  obtain ⟨tr, l, hrun, hstart, hconf⟩ := read_swap_run
  have hruns : Runs (Machine.start tr l).server.omniPaxos (sampleLogs 0) := by
    rw [hstart]
    exact ⟨_, sampleLogs_shows 0 (by decide)⟩
  obtain ⟨tr', n, hrun', hR, -⟩ := loop_refines_node hrun.run hrun.keeps hruns
  rw [hstart] at hrun'
  exact ⟨tr', n, hrun', hR.conf.trans hconf⟩

/-! ## One configuration -/

/-- What the loop makes of a log without StopSign: the database is the applied prefix, whatever the
order in which the network tasks deliver, a call of `handle_decided_entries` returns, and each read is
answered from the prefix its client has been told of. -/
theorem loop_refines_log {L : List KVCommand}
    {tr : List (Machine.Transition (Loop OP Msg) (Loop.Event Msg Storage))}
    (hrun : (Loop.machine env).Run tr l) (hkeeps : ∀ t ∈ tr, Keeps (Single.logs L) t)
    (hruns : Runs (Machine.start tr l).server.omniPaxos (Single.logs L 0))
    (hempty : (Machine.start tr l).server.database = Database.empty)
    (hlocal : ∀ t ∈ tr, ∀ w kvList origin, t.event ≠ .process w ⟨origin, .stateCatchup kvList⟩) :
    l.server.database = Database.empty.applyCommands (L.take l.server.lastDecidedIdx) ∧
    (∀ w : World Storage, ∃ s', l.server.handleDecidedEntries env w = .ok s' ∧
      s'.lastDecidedIdx = getDecidedIdx l.server.omniPaxos) ∧
    History.Each (Single.GoodAnswer L) l.server.network.sent ∧
    (Single.decidedArgs l.server.network.sent).Pairwise (· < ·) := by
  obtain ⟨tr', n, hrun', hR, hanswers⟩ := loop_refines_node hrun hkeeps hruns
  rw [hempty] at hrun'
  have hlocal' : ∀ t' ∈ tr', Single.Local t'.event := by
    intro t' ht'
    obtain ⟨t, ht, hanswer⟩ := Machine.answered_of_mem hanswers ht'
    rw [hanswer.event]
    exact label_local (hlocal t ht)
  have h := Single.Answered.run hrun' hlocal'
  obtain ⟨count, timeot, hserver⟩ := hR.server
  have hdb := h.database_eq
  have heach := h.answers
  have hincreasing := h.increasing
  rw [h.boot, hserver] at hdb
  rw [hserver, Server.outline_sent] at heach hincreasing
  rw [decidedArgs_dataMsgs] at hincreasing
  refine ⟨hdb, fun w => ?_, each_goodAnswer heach, hincreasing⟩
  obtain ⟨s₁, hs₁⟩ := h.handle_ok env w
  have hidx := (h.toInv.handle hs₁).2
  rw [hserver] at hs₁ hidx
  obtain ⟨s', hs, rfl⟩ := Server.handleDecidedEntries_of_outline hs₁
  exact ⟨s', hs, hidx⟩

/-- The loop applies a decided write, then answers a read from it. -/
theorem write_read_run : ∃ (tr : List (Machine.Transition (Loop Replica ReplicaMsg)
      (Loop.Event ReplicaMsg Replica))) (l : Loop Replica ReplicaMsg),
    (Loop.machine sampleEnv).KeptRun (Keeps (Single.logs Single.sampleLog)) tr l ∧
    Machine.start tr l = ⟨Server.initial sampleEnv (.error .client)
      (Single.sampleReplica 1 (.create [])) Database.empty, .select, [], 0⟩ ∧
    (∀ t ∈ tr, ∀ w kvList origin, t.event ≠ .process w ⟨origin, .stateCatchup kvList⟩) ∧
    l.server.network.sent = [(0, .apiResponse (.decided 1)),
      (0, .apiResponse (.get "a" (some "1")))] := by
  have hrun : (Loop.machine sampleEnv).KeptRun (Keeps (Single.logs Single.sampleLog)) [] _ :=
    ⟨Machine.Run.nil (M := (Loop.machine sampleEnv : Machine (Loop Replica ReplicaMsg) _))
    ⟨.error .client, Single.sampleReplica 1 (.create []), Database.empty, false, _, rfl, rfl⟩,
    by simp⟩
  have hshow : Shows (Single.sampleReplica 1 (.create [])) ⟨Single.sampleLog, none⟩ (.create []) :=
    Replica.shows_uncompacted rfl (by decide)
  have hrun := hrun.snoc (.wake rfl) ⟨⟨_, hshow⟩, fun _ => le_rfl⟩
  have hrun := hrun.snoc (.drain rfl) ⟨⟨_, hshow⟩, fun _ => le_rfl⟩
  have hrun := hrun.snoc (.receive (m := ⟨0, .apiRequest (.get "a")⟩)) ⟨⟨_, hshow⟩, fun _ => le_rfl⟩
  have hrun := hrun.snoc (.sent rfl) ⟨⟨_, hshow⟩, fun _ => le_rfl⟩
  have hrun := hrun.snoc (.apply rfl (Server.handleDecidedEntries_commands sampleEnv
    Single.idleWorld hshow (by decide) (by decide))) ⟨⟨_, hshow⟩, fun _ => le_rfl⟩
  have hrun := hrun.snoc (.wake rfl) ⟨⟨_, hshow⟩, fun _ => le_rfl⟩
  have hrun := hrun.snoc (.process (w := Single.idleWorld) rfl rfl) ⟨⟨_, hshow⟩, fun _ => le_rfl⟩
  refine ⟨_, _, hrun, rfl, ?_, rfl⟩
  simp

theorem loop_refines_log_sample : ∃ l : Loop Replica ReplicaMsg,
    l.server.network.sent = [(0, .apiResponse (.decided 1)),
      (0, .apiResponse (.get "a" (some "1")))] ∧
    History.Each (Single.GoodAnswer Single.sampleLog) l.server.network.sent := by
  obtain ⟨tr, l, hrun, hstart, hlocal, hsent⟩ := write_read_run
  have hruns : Runs (Machine.start tr l).server.omniPaxos (Single.logs Single.sampleLog 0) := by
    rw [hstart]
    exact ⟨.create [], Replica.shows_uncompacted rfl (by decide)⟩
  obtain ⟨-, -, heach, -⟩ := loop_refines_log hrun.run hrun.keeps hruns (by rw [hstart]; rfl) hlocal
  exact ⟨l, hsent, heach⟩

end Refinement
end OmniKV
