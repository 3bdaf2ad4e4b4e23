import OmniKV.EventLoop

/-!
# Lifetime

The processes of a node, one after another. A process runs the loop of `EventLoop` until it is killed
or a message makes it panic; then the node has no process until the next start.

A process also remembers the members of the configuration its instance was built for, and the replica
count it was told last: at its start, then with every heartbeat for which the query succeeds.
-/

namespace OmniKV
namespace Lifetime

variable {OP Msg Storage : Type} [OmniPaxos OP Msg Storage]

structure Process (OP Msg : Type) where
  loop : Loop OP Msg
  nodes : List Nat
  seen : Nat

/-- `kill` is also a panic outside of `process_incoming_msgs`. -/
inductive Event (Msg Storage : Type) where
  | start (api : Except QueryError StatefulSet)
  | run (e : Loop.Event Msg Storage)
  | panic (w : World Storage) (m : Envelope Msg) (p : Panic)
  | kill

/-- The members of the configuration that runs once `es` are applied. -/
def configured (nodes : List Nat) (es : List LogEntry) : List Nat :=
  es.foldl (fun nodes e =>
    match e with
    | .stopSign stopsign true => stopsign.nextConfig.nodes
    | _ => nodes) nodes

/-- The replica count last told, after a query. -/
def told (w : World Storage) (seen : Nat) : Nat :=
  match queryStatefulsetReplicas w.api with
  | .ok activeReplicas => activeReplicas
  | .error _ => seen

def observed (w : World Storage) (seen : Nat) : Message Msg → Nat
  | .debug _ => told w seen
  | _ => seen

namespace Process

def server (b : Process OP Msg) : Server OP Msg := b.loop.server

def started (api : Except QueryError StatefulSet) (s : Server OP Msg) : Process OP Msg where
  loop := { server := s, phase := .select, received := [], conf := 0 }
  nodes := (initialClusterConfig api).nodes
  seen := initialNumReplicas api

def advance (b : Process OP Msg) (e : Loop.Event Msg Storage) (l : Loop OP Msg) :
    Process OP Msg where
  loop := l
  nodes :=
    match e with
    | .apply _ => configured b.nodes b.server.entriesRead
    | _ => b.nodes
  seen :=
    match e with
    | .process w m => observed w b.seen m.body
    | _ => b.seen

end Process

/-! ## Messages handled -/

/-- The message a process handles in a step, whether or not it survives it. -/
def handled : Event Msg Storage → Option (World Storage × Message Msg)
  | .run (.process w m) => some (w, m.body)
  | .panic w m _ => some (w, m.body)
  | _ => none

/-- What handling a message does: the process goes on with what `handleMsg` returns, or is gone. -/
inductive Handles (env : Env) (b : Process OP Msg) (w : World Storage) (m : Message Msg) :
    Event Msg Storage → Option (Process OP Msg) → Prop where
  | returns {e : Loop.Event Msg Storage} {a : Process OP Msg} :
      b.server.handleMsg env w m = .ok a.server → Handles env b w m (.run e) (some a)
  | panics {m' : Envelope Msg} {p : Panic} :
      b.server.handleMsg env w m = .error p → Handles env b w m (.panic w m' p) none

/-! ## Client writes -/

def clientWrite : Message Msg → Option KVCommand
  | .apiRequest (.get _) => none
  | .apiRequest cmd => some cmd
  | _ => none

/-- What the consensus library says of its refusals, where `holds` are the instances whose log holds an
accepted or decided StopSign. -/
structure StopLaws (holds : OP → Prop) : Prop where
  append : ∀ (op : OP) cmd, OmniPaxos.append op cmd = none ↔ holds op
  reconfigure : ∀ (op : OP) config metadata, OmniPaxos.reconfigure op config metadata = none ↔
    holds op ∨ config.nodes.length < 2 ∨ config.configurationId = 0

/-- What the library takes. -/
theorem StopLaws.reconfigure_isSome {holds : OP → Prop} (laws : StopLaws holds) (op : OP)
    (config : ClusterConfig) :
    (∃ op', OmniPaxos.reconfigure op config none = some op') ↔
      ¬holds op ∧ 2 ≤ config.nodes.length ∧ config.configurationId ≠ 0 := by
  rw [← Option.ne_none_iff_exists', ne_eq, laws.reconfigure]
  push Not
  rfl

theorem handleMsg_write (env : Env) (w : World Storage) (s : Server OP Msg) {m : Message Msg}
    {cmd : KVCommand} (hm : clientWrite m = some cmd) :
    s.handleMsg env w m =
      match OmniPaxos.append s.omniPaxos cmd with
      | none => .error .appendRefused
      | some op => .ok { s with omniPaxos := op } := by
  cases m with
  | apiRequest request =>
    cases request with
    | get _ => cases hm
    | put _ | delete _ =>
      cases hm
      rfl
  | _ => cases hm

section Transitions

variable (t : Machine.Transition (Option (Process OP Msg)) (Event Msg Storage))

/-- A client write that is handled is appended, or refused with log and database unchanged. -/
def WriteSurvives : Prop :=
  ∀ w m cmd b, handled t.event = some (w, m) → clientWrite m = some cmd → t.before = some b →
    ∃ a, t.after = some a ∧ a.server.database = b.server.database ∧
      (OmniPaxos.append b.server.omniPaxos cmd = some a.server.omniPaxos ∨
        a.server.omniPaxos = b.server.omniPaxos)

/-- A client write is handled while no StopSign is in the log. -/
def WriteAdmitted (holds : OP → Prop) : Prop :=
  ∀ w m cmd b, handled t.event = some (w, m) → clientWrite m = some cmd → t.before = some b →
    ¬holds b.server.omniPaxos

end Transitions

/-! ## Runs -/

variable [OPMessage Msg]

inductive Step (env : Env) :
    Option (Process OP Msg) → Event Msg Storage → Option (Process OP Msg) → Prop where
  | start {api : Except QueryError StatefulSet} {op : OP} {db : Database} {restarted : Bool}
      {s : Server OP Msg} : (Server.initial env api op db).recover restarted = .ok s →
      Step env none (.start api) (some (.started api s))
  | run {b : Process OP Msg} {e : Loop.Event Msg Storage} {l : Loop OP Msg} :
      Loop.Step env b.loop e l → Step env (some b) (.run e) (some (b.advance e l))
  | panic {b : Process OP Msg} {w : World Storage} {m : Envelope Msg} {rest : List (Envelope Msg)}
      {p : Panic} : b.loop.phase = .processing (m :: rest) →
      b.server.handleMsg env w m.body = .error p → Step env (some b) (.panic w m p) none
  | kill {b : Process OP Msg} : Step env (some b) .kill none

/-- A node, before its first process. -/
def machine (env : Env) : Machine (Option (Process OP Msg)) (Event Msg Storage) where
  init n := n = none
  step := Step env

/-- What a process does between its start and its end is a run of the loop. -/
theorem runs_loop {env : Env}
    {tr : List (Machine.Transition (Option (Process OP Msg)) (Event Msg Storage))}
    {n : Option (Process OP Msg)} (hrun : (machine env).Run tr n) :
    ∀ b ∈ n, ∃ tr' : List (Machine.Transition (Loop OP Msg) (Loop.Event Msg Storage)),
      (Loop.machine env).Run tr' b.loop := by
  refine hrun.invariant' (I := fun n => ∀ b ∈ n, ∃ tr', (Loop.machine env).Run tr' b.loop) ?_ ?_
  · rintro n rfl b hb
    cases hb
  · intro n e n' ih hs b hb
    cases hs with
    | start hrecover =>
      cases hb
      exact ⟨[], .nil ⟨_, _, _, _, _, hrecover, rfl⟩⟩
    | run hs =>
      cases hb
      obtain ⟨tr', hrun'⟩ := ih _ rfl
      exact ⟨_, hrun'.snoc hs⟩
    | panic _ _ => cases hb
    | kill => cases hb

theorem Step.handles {env : Env} {b : Process OP Msg} {n n' : Option (Process OP Msg)}
    {e : Event Msg Storage} {w : World Storage} {m : Message Msg} (hs : Step env n e n')
    (he : handled e = some (w, m)) (hn : n = some b) : Handles env b w m e n' := by
  cases hs with
  | start _ => cases he
  | kill => cases he
  | run hs =>
    cases hn
    cases hs with
    | process _ hmsg =>
      cases he
      exact .returns hmsg
    | _ => cases he
  | panic _ hmsg =>
    cases hn
    cases he
    exact .panics hmsg

section Survival

variable {env : Env} {holds : OP → Prop}

theorem writeSurvives_iff (laws : StopLaws holds) {n n' : Option (Process OP Msg)}
    {e : Event Msg Storage} (hs : Step env n e n') :
    WriteSurvives ⟨n, e, n'⟩ ↔ WriteAdmitted ⟨n, e, n'⟩ holds := by
  constructor
  · intro h w m cmd b he hm hb hholds
    obtain ⟨a, ha, -, -⟩ := h w m cmd b he hm hb
    have hnone := (laws.append b.server.omniPaxos cmd).mpr hholds
    -- the process goes on, but what it calls has refused
    cases ha
    cases hs.handles he hb with
    | returns hmsg =>
      rw [handleMsg_write env w b.server hm, hnone] at hmsg
      cases hmsg
  · intro h w m cmd b he hm hb
    have hfree := h w m cmd b he hm hb
    cases happend : OmniPaxos.append b.server.omniPaxos cmd with
    | none => exact absurd ((laws.append _ _).mp happend) hfree
    | some op =>
      have hcall := handleMsg_write env w b.server hm
      rw [happend] at hcall
      cases hs.handles he hb with
      | returns hmsg =>
        rename_i a
        rw [hcall] at hmsg
        have hserver := Except.ok.inj hmsg
        exact ⟨a, rfl, by rw [← hserver], Or.inl (by rw [← hserver])⟩
      | panics hmsg =>
        rw [hcall] at hmsg
        cases hmsg

/-- In every life of a node, all client writes are survived exactly when each is handled while no
StopSign is in the log. -/
theorem writes_survive_iff (laws : StopLaws holds)
    {tr : List (Machine.Transition (Option (Process OP Msg)) (Event Msg Storage))}
    {n : Option (Process OP Msg)} (hrun : (machine env).Run tr n) :
    (∀ t ∈ tr, WriteSurvives t) ↔ ∀ t ∈ tr, WriteAdmitted t holds :=
  hrun.forall_iff (H := fun _ => True) (I := fun _ => True) (fun _ _ => trivial)
    (fun _ _ _ _ _ _ _ => trivial) (fun _ _ _ _ hs _ => writeSurvives_iff laws hs)
    (fun _ _ => trivial)

end Survival

/-! ## Acceptors -/

inductive AcceptorMsg where
  | leader (receiver pid : Nat)
  | accept (receiver : Nat) (stopsign : StopSign)
  | decide (receiver idx : Nat)

instance : OPMessage AcceptorMsg where
  getReceiver
    | .leader receiver _ => receiver
    | .accept receiver _ => receiver
    | .decide receiver _ => receiver

/-- A consensus instance with the log it has accepted. It is told who leads, which StopSign to accept
and how much is decided, and refuses what the library refuses. -/
structure Acceptor where
  log : ConfigLog
  decidedIdx : Nat
  leader : Option Nat

namespace Acceptor

def holds (a : Acceptor) : Prop := a.log.stop.isSome = true

def append (a : Acceptor) (cmd : KVCommand) : Option Acceptor :=
  if a.log.stop.isSome then none
  else some { a with log := { a.log with cmds := a.log.cmds ++ [cmd] } }

def reconfigure (a : Acceptor) (config : ClusterConfig) (metadata : Option Bytes) :
    Option Acceptor :=
  if a.log.stop.isSome ∨ config.nodes.length < 2 ∨ config.configurationId = 0 then none
  else some { a with log := { a.log with stop := some ⟨config, metadata⟩ } }

def handleIncoming (a : Acceptor) : AcceptorMsg → Acceptor
  | .leader _ pid => { a with leader := some pid }
  | .accept _ stopsign =>
    if a.log.stop.isSome then a else { a with log := { a.log with stop := some stopsign } }
  | .decide _ idx => { a with decidedIdx := max a.decidedIdx (min idx a.log.length) }

instance : OmniPaxos Acceptor AcceptorMsg Acceptor where
  getDecidedIdx := decidedIdx
  readDecidedSuffix a i :=
    if i < a.decidedIdx then some (a.log.suffix (.create []) i a.decidedIdx) else none
  isReconfigured a := if a.decidedIdx = a.log.length then a.log.stop else none
  getCurrentLeader a := a.leader.map fun pid => (pid, true)
  append := append
  reconfigure := reconfigure
  handleIncoming := handleIncoming
  reconnected a _ := a
  tick a := a
  outgoingMessages a := ([], a)
  snapshot a _ _ := some a
  buildForServer config serverConfig storage :=
    if serverConfig.pid ∈ config.nodes then some { storage with leader := none } else none

theorem refused_iff {P : Prop} [Decidable P] {a : Acceptor} :
    (if P then none else some a) = none ↔ P := by
  by_cases h : P <;> simp [h]

theorem stopLaws : StopLaws holds where
  append _ _ := refused_iff
  reconfigure _ _ _ := refused_iff

/-- An instance of a configuration that has not begun. -/
def fresh : Acceptor where
  log := { cmds := [], stop := none }
  decidedIdx := 0
  leader := none

def world : World Acceptor :=
  { order := .sorted, openStorage := fun _ => some fresh, api := .error .client }

end Acceptor

abbrev AcceptorRun := Machine.Run (machine sampleEnv :
  Machine (Option (Process Acceptor AcceptorMsg)) (Event AcceptorMsg Acceptor))

theorem acceptor_starts : (machine sampleEnv :
      Machine (Option (Process Acceptor AcceptorMsg)) (Event AcceptorMsg Acceptor)).step none
    (.start (.error .client)) (some (.started (.error .client)
      (.initial sampleEnv (.error .client) Acceptor.fresh Database.empty))) :=
  .start (Server.recover_false _)

/-- In one batch the process accepts the StopSign another node has proposed and gets a write. -/
theorem write_kills : ∃ tr, AcceptorRun tr none ∧ ∃ t ∈ tr, ¬WriteSurvives t := by
  have hrun : AcceptorRun _ _ := .nil rfl
  have hrun := hrun.snoc acceptor_starts
  have hrun := hrun.snoc (.run (.receive (m := ⟨0, .omniPaxosMsg (.accept 1 sampleStopSign)⟩)))
  have hrun := hrun.snoc (.run (.receive (m := ⟨0, .apiRequest (.put ⟨"a", "1"⟩)⟩)))
  have hrun := hrun.snoc (.run (.wake rfl))
  have hrun := hrun.snoc (.run (.process (w := Acceptor.world) rfl rfl))
  have hrun := hrun.snoc (.panic (w := Acceptor.world) (p := .appendRefused) rfl rfl)
  refine ⟨_, hrun, _, List.mem_of_getElem? (i := 5) rfl, ?_⟩
  intro hsurvives
  obtain ⟨a, ha, -⟩ := hsurvives Acceptor.world (.apiRequest (.put ⟨"a", "1"⟩)) (.put ⟨"a", "1"⟩) _
    rfl rfl rfl
  cases ha

theorem writes_survive_sample : ∃ tr n, AcceptorRun tr n ∧
    (∃ b ∈ n, b.server.omniPaxos.log.cmds = [.put ⟨"a", "1"⟩]) ∧ ∀ t ∈ tr, WriteSurvives t := by
  have hrun : AcceptorRun _ _ := .nil rfl
  have hrun := hrun.snoc acceptor_starts
  have hrun := hrun.snoc (.run (.receive (m := ⟨0, .apiRequest (.put ⟨"a", "1"⟩)⟩)))
  have hrun := hrun.snoc (.run (.wake rfl))
  have hrun := hrun.snoc (.run (.process (w := Acceptor.world) rfl rfl))
  refine ⟨_, _, hrun, ⟨_, rfl, rfl⟩, (writes_survive_iff Acceptor.stopLaws hrun).mpr ?_⟩
  intro t ht w m cmd b he hm hb
  simp only [List.mem_append, List.mem_singleton, List.not_mem_nil, false_or] at ht
  rcases ht with ((rfl | rfl) | rfl) | rfl
  · cases he
  · cases he
  · cases he
  · cases hb
    exact Bool.false_ne_true

end Lifetime
end OmniKV
