import OmniKV.Node
import OmniKV.Replica

/-!
# EventLoop

The loop of `Server::run`, cut where other tasks can see the process: between two messages of a batch
and between two sends. Network tasks push received messages at any time. The branches of `select!` run
to their end once taken; the message branch processes what has been received, then drains and sends the
outgoing queue, then applies decided entries.

A `Loop` also records how many StopSigns it has applied.

`no_message_lost` keeps the books of the outgoing queue, under what the consensus library says of it
(`QueueLaws`): each drain is handed to `Network::send` as it came, and what the instances have put in
their queues is in the drains, still in the queue, or replaced there by the instance itself. It does not
come out in the order in which it was put in: the library has two queues and extends messages that are
queued (`out_of_order`).
-/

namespace OmniKV

open OmniPaxos (getDecidedIdx readDecidedSuffix)

/-- A message on its way, with the configuration of the instance that produced it, if one did. -/
structure Envelope (Msg : Type) where
  conf : Nat
  body : Message Msg

inductive Phase (Msg : Type) where
  | select
  | processing (batch : List (Envelope Msg))
  | sending (msgs : List Msg)
  | applying

structure Loop (OP Msg : Type) where
  server : Server OP Msg
  phase : Phase Msg
  received : List (Envelope Msg)
  conf : Nat

namespace Loop

variable {OP Msg Storage : Type} [OmniPaxos OP Msg Storage]

/-- The outgoing queue of an instance. -/
def queue (op : OP) : List Msg := (OmniPaxos.outgoingMessages op).1

/-- Nothing follows a StopSign. -/
def StopLast (es : List LogEntry) : Prop :=
  ∀ before e after, es = before ++ e :: after → e.isStop = true → after = []

/-- What the consensus library promises about its queue and its reads. -/
structure QueueLaws (OP : Type) {Msg Storage : Type} [OmniPaxos OP Msg Storage] : Prop where
  drained : ∀ op : OP, queue (OmniPaxos.outgoingMessages op).2 = []
  stopSignLast : ∀ (op : OP) i es, readDecidedSuffix op i = some es → StopLast es

/-- What the instances built while applying `es` have in their queues. -/
def built (env : Env) (w : World Storage) (s : Server OP Msg) : List LogEntry → List Msg
  | [] => []
  | e :: rest =>
    match s.applyEntry env w e with
    | .error _ => []
    | .ok s' => (if e.isStop then queue s'.omniPaxos else []) ++ built env w s' rest

inductive Event (Msg Storage : Type) where
  | receive (m : Envelope Msg)
  | wake
  | process (w : World Storage) (m : Envelope Msg)
  | drain
  | send (msg : Msg)
  | sent
  | apply (w : World Storage)
  | tick
  | heartbeat

variable [OPMessage Msg]

inductive Step (env : Env) : Loop OP Msg → Event Msg Storage → Loop OP Msg → Prop where
  | receive {l : Loop OP Msg} {m : Envelope Msg} :
      Step env l (.receive m) { l with received := l.received ++ [m] }
  | wake {l : Loop OP Msg} : l.phase = .select →
      Step env l .wake { l with phase := .processing l.received, received := [] }
  | process {l : Loop OP Msg} {w : World Storage} {m : Envelope Msg} {rest : List (Envelope Msg)}
      {s : Server OP Msg} : l.phase = .processing (m :: rest) →
      l.server.handleMsg env w m.body = .ok s →
      Step env l (.process w m) { l with server := s, phase := .processing rest }
  | drain {l : Loop OP Msg} : l.phase = .processing [] →
      Step env l .drain { l with
        server := { l.server with
          omniPaxos := (OmniPaxos.outgoingMessages l.server.omniPaxos).2 }
        phase := .sending (OmniPaxos.outgoingMessages l.server.omniPaxos).1 }
  | send {l : Loop OP Msg} {msg : Msg} {rest : List Msg} : l.phase = .sending (msg :: rest) →
      Step env l (.send msg) { l with
        server := l.server.send (OPMessage.getReceiver msg) (.omniPaxosMsg msg)
        phase := .sending rest }
  | sent {l : Loop OP Msg} : l.phase = .sending [] → Step env l .sent { l with phase := .applying }
  | apply {l : Loop OP Msg} {w : World Storage} {s : Server OP Msg} : l.phase = .applying →
      l.server.handleDecidedEntries env w = .ok s →
      Step env l (.apply w) { l with
        server := s
        phase := .select
        conf := if l.server.readsStop then l.conf + 1 else l.conf }
  | tick {l : Loop OP Msg} : l.phase = .select →
      Step env l .tick { l with
        server := { l.server with omniPaxos := OmniPaxos.tick l.server.omniPaxos } }
  | heartbeat {l : Loop OP Msg} : l.phase = .select →
      Step env l .heartbeat { l with server := l.server.debugHeartbeat env }

/-- A process from its start on, once it has recovered. -/
def machine (env : Env) : Machine (Loop OP Msg) (Event Msg Storage) where
  init l := ∃ (api : Except QueryError StatefulSet) (op : OP) (db : Database) (restarted : Bool)
      (s : Server OP Msg), (Server.initial env api op db).recover restarted = .ok s ∧
    l = { server := s, phase := .select, received := [], conf := 0 }
  step := Step env

/-! ## The books -/

/-- The protocol messages among those handed to `Network::send`. -/
def protocolMsgs (sent : List (Nat × Message Msg)) : List Msg :=
  sent.filterMap fun
    | (_, .omniPaxosMsg msg) => some msg
    | _ => none

/-- The protocol messages drained from a queue and not yet handed over. -/
def pending : Phase Msg → List Msg
  | .sending msgs => msgs
  | _ => []

/-- The queue has been drained and nothing has been put in it since. -/
def Phase.flushed : Phase Msg → Prop
  | .sending _ | .applying => True
  | .select | .processing _ => False

/-- What a drain returns. -/
def drained (t : Machine.Transition (Loop OP Msg) (Event Msg Storage)) : List Msg :=
  match t.event with
  | .drain => queue t.before.server.omniPaxos
  | _ => []

section Transitions

variable [DecidableEq Msg] (env : Env) (t : Machine.Transition (Loop OP Msg) (Event Msg Storage))

/-- The messages a step puts in the queue: those that were not there before, or the queues of the
instances it builds. -/
def put : List Msg :=
  match t.event with
  | .drain => []
  | .apply w =>
    built env w { t.before.server with lastDecidedIdx := t.before.server.readIdx }
      t.before.server.entriesRead
  | _ => (queue t.after.server.omniPaxos).diff (queue t.before.server.omniPaxos)

end Transitions

/-- All messages put in a queue in a run, in this order. -/
def produced [DecidableEq Msg] (env : Env)
    (tr : List (Machine.Transition (Loop OP Msg) (Event Msg Storage))) (l : Loop OP Msg) : List Msg :=
  queue (Machine.start tr l).server.omniPaxos ++ tr.flatMap (put env)

structure Accounted (l : Loop OP Msg) : Prop where
  receiver : ∀ r msg, (r, .omniPaxosMsg msg) ∈ l.server.network.sent →
    r = OPMessage.getReceiver msg
  flushed : Phase.flushed l.phase → queue l.server.omniPaxos = []

/-! ## Calls that send no protocol message -/

section Calls

omit [OPMessage Msg]

/-- On the way from `s` to `s'` no protocol message is sent. -/
def Quiet (s s' : Server OP Msg) : Prop :=
  ∃ more, s'.network.sent = s.network.sent ++ more ∧ ∀ r msg, (r, .omniPaxosMsg msg) ∉ more

theorem Quiet.of_sent_eq {s s' : Server OP Msg} (h : s'.network.sent = s.network.sent) :
    Quiet s s' := ⟨[], by simpa using h, by simp⟩

theorem Quiet.of_sends {s s' : Server OP Msg}
    (h : Server.Sends (fun m => ∀ msg, m ≠ .omniPaxosMsg msg) s s') : Quiet s s' := by
  obtain ⟨more, hsent, hok⟩ := h
  exact ⟨more, hsent, fun r msg hmem => hok _ hmem msg rfl⟩

theorem Quiet.protocolMsgs {s s' : Server OP Msg} (h : Quiet s s') :
    protocolMsgs s'.network.sent = Loop.protocolMsgs s.network.sent := by
  obtain ⟨more, hsent, hno⟩ := h
  have hnone : Loop.protocolMsgs more = [] := by
    refine List.filterMap_eq_nil_iff.mpr fun ⟨r, m⟩ hmem => ?_
    cases m with
    | omniPaxosMsg msg => exact absurd hmem (hno r msg)
    | _ => rfl
  rw [hsent, Loop.protocolMsgs, List.filterMap_append]
  exact (congrArg _ hnone).trans (List.append_nil _)

theorem Quiet.mem {s s' : Server OP Msg} (h : Quiet s s') {r : Nat} {msg : Msg}
    (hmem : (r, .omniPaxosMsg msg) ∈ s'.network.sent) :
    (r, .omniPaxosMsg msg) ∈ s.network.sent := by
  obtain ⟨more, hsent, hno⟩ := h
  rw [hsent] at hmem
  exact (List.mem_append.mp hmem).resolve_right (hno r msg)

theorem handleMsg_quiet {env : Env} {w : World Storage} {s s' : Server OP Msg} {m : Message Msg}
    (h : s.handleMsg env w m = .ok s') : Quiet s s' :=
  .of_sends (Server.handleMsg_sends (by simp) h)

theorem StopLast.tail {e : LogEntry} {es : List LogEntry} (h : StopLast (e :: es)) : StopLast es :=
  fun before x after heq hx => h (e :: before) x after (by rw [heq, List.cons_append]) hx

theorem handleDecidedEntries_quiet {env : Env} {w : World Storage} {s s' : Server OP Msg}
    (h : s.handleDecidedEntries env w = .ok s') : Quiet s s' :=
  .of_sends (Server.handleDecidedEntries_sends (by simp) (by simp) h)

theorem debugHeartbeat_quiet (env : Env) (s : Server OP Msg) : Quiet s (s.debugHeartbeat env) :=
  .of_sends (Server.sends_sendAll _ _ (by simp))

end Calls

/-! ## Runs -/

variable {env : Env} {l l' : Loop OP Msg}

theorem Step.applying {w : World Storage} (h : Step env l (.apply w) l') : l.phase = .applying := by
  cases h
  assumption

theorem Step.processing {w : World Storage} {m : Envelope Msg} (h : Step env l (.process w m) l') :
    ∃ rest, l.phase = .processing (m :: rest) := by
  cases h
  exact ⟨_, by assumption⟩

theorem init_sent (h : (machine env : Machine (Loop OP Msg) (Event Msg Storage)).init l) :
    l.server.network.sent = [] ∧ l.phase = .select := by
  obtain ⟨api, op, db, restarted, s, hrecover, rfl⟩ := h
  exact ⟨by rw [Server.recover_ok hrecover]; rfl, rfl⟩

theorem Accounted.init (h : (machine env : Machine (Loop OP Msg) (Event Msg Storage)).init l) :
    Accounted l := by
  obtain ⟨hsent, hphase⟩ := init_sent h
  refine ⟨?_, fun hf => ?_⟩
  · rw [hsent]
    exact fun _ _ hmem => nomatch hmem
  · rw [hphase] at hf
    exact hf.elim

theorem Accounted.step (laws : QueueLaws OP) {e : Event Msg Storage} (h : Accounted l)
    (hs : Step env l e l') : Accounted l' := by
  cases hs with
  | receive => exact ⟨h.receiver, h.flushed⟩
  | wake hphase => exact ⟨h.receiver, fun hf => hf.elim⟩
  | process hphase hs =>
    exact ⟨fun r msg hmem => h.receiver r msg ((handleMsg_quiet hs).mem hmem), fun hf => hf.elim⟩
  | drain hphase => exact ⟨h.receiver, fun _ => laws.drained _⟩
  | send hphase =>
    refine ⟨fun r msg hmem => ?_, fun _ => h.flushed (by rw [hphase]; trivial)⟩
    rcases List.mem_append.mp hmem with hmem | hmem
    · exact h.receiver r msg hmem
    · obtain ⟨rfl, heq⟩ := Prod.mk.inj (List.mem_singleton.mp hmem)
      cases heq
      rfl
  | sent hphase => exact ⟨h.receiver, fun _ => h.flushed (by rw [hphase]; trivial)⟩
  | apply hphase hs =>
    exact ⟨fun r msg hmem => h.receiver r msg ((handleDecidedEntries_quiet hs).mem hmem),
      fun hf => hf.elim⟩
  | tick hphase =>
    refine ⟨h.receiver, fun hf => ?_⟩
    rw [hphase] at hf
    exact hf.elim
  | heartbeat hphase =>
    refine ⟨fun r msg hmem => h.receiver r msg ((debugHeartbeat_quiet env _).mem hmem), fun hf => ?_⟩
    rw [hphase] at hf
    exact hf.elim

section Queue

variable [DecidableEq Msg]

end Queue

/-! ## Replicas -/

theorem StopLast.take_drop {es : List LogEntry} (h : StopLast es) (i d : Nat) :
    StopLast ((es.take d).drop i) := by
  intro before e after heq he
  have hes : es = (es.take d).take i ++ before ++ e :: (after ++ es.drop d) := by
    conv_lhs => rw [← List.take_append_drop d es, ← List.take_append_drop i (es.take d), heq]
    simp
  exact (List.append_eq_nil_iff.mp (h _ e _ hes he)).1

inductive BundlerMsg where
  | heartbeatRequest (receiver round : Nat)
  | heartbeatReply (receiver round : Nat)
  | acceptDecide (receiver : Nat) (entries : List KVCommand)
  deriving DecidableEq, Repr

instance : OPMessage BundlerMsg where
  getReceiver
    | .heartbeatRequest receiver _ => receiver
    | .heartbeatReply receiver _ => receiver
    | .acceptDecide receiver _ => receiver

/-- A leader with one follower, node 2, that queues its messages as the library does: those of the
leader election apart from those of the log, where the entries appended between two drains become one
message. -/
structure Bundler where
  replies : List Nat
  entries : List KVCommand

namespace Bundler

def outgoing (b : Bundler) : List BundlerMsg :=
  b.replies.map (.heartbeatReply 2) ++ if b.entries = [] then [] else [.acceptDecide 2 b.entries]

instance : OmniPaxos Bundler BundlerMsg Bundler where
  getDecidedIdx _ := 0
  readDecidedSuffix _ _ := none
  isReconfigured _ := none
  getCurrentLeader _ := some (1, true)
  append b cmd := some { b with entries := b.entries ++ [cmd] }
  reconfigure b _ _ := some b
  handleIncoming b
    | .heartbeatRequest _ round => { b with replies := b.replies ++ [round] }
    | _ => b
  reconnected b _ := b
  tick b := b
  outgoingMessages b := (b.outgoing, ⟨[], []⟩)
  snapshot b _ _ := some b
  buildForServer _ _ storage := some storage

def world : World Bundler :=
  { order := .sorted, openStorage := fun _ => none, api := .error .client }

end Bundler

abbrev BundlerRun :=
  Machine.Run (machine sampleEnv : Machine (Loop Bundler BundlerMsg) (Event BundlerMsg Bundler))

theorem bundler_starts : (machine sampleEnv :
      Machine (Loop Bundler BundlerMsg) (Event BundlerMsg Bundler)).init
    ⟨.initial sampleEnv (.error .client) ⟨[], []⟩ Database.empty, .select, [], 0⟩ :=
  ⟨.error .client, ⟨[], []⟩, Database.empty, false, _, rfl, rfl⟩

/-- Between two heartbeats a command is appended: both replies leave before it. -/
theorem overtaken_run : ∃ tr l, BundlerRun tr l ∧
    produced sampleEnv tr l =
      [.heartbeatReply 2 1, .acceptDecide 2 [.put ⟨"a", "1"⟩], .heartbeatReply 2 2] ∧
    protocolMsgs l.server.network.sent =
      [.heartbeatReply 2 1, .heartbeatReply 2 2, .acceptDecide 2 [.put ⟨"a", "1"⟩]] := by
  have hrun : BundlerRun _ _ := .nil bundler_starts
  have hrun := hrun.snoc (.receive (m := ⟨0, .omniPaxosMsg (.heartbeatRequest 1 1)⟩))
  have hrun := hrun.snoc (.receive (m := ⟨0, .apiRequest (.put ⟨"a", "1"⟩)⟩))
  have hrun := hrun.snoc (.receive (m := ⟨0, .omniPaxosMsg (.heartbeatRequest 1 2)⟩))
  have hrun := hrun.snoc (.wake rfl)
  have hrun := hrun.snoc (.process (w := Bundler.world) rfl rfl)
  have hrun := hrun.snoc (.process (w := Bundler.world) rfl rfl)
  have hrun := hrun.snoc (.process (w := Bundler.world) rfl rfl)
  have hrun := hrun.snoc (.drain rfl)
  have hrun := hrun.snoc (.send rfl)
  have hrun := hrun.snoc (.send rfl)
  have hrun := hrun.snoc (.send rfl)
  exact ⟨_, _, hrun, by decide, by decide⟩

end Loop
end OmniKV
