import OmniKV.Routing

/-!
# Inbox

The buffer of incoming messages. Reader tasks, one for the client API and one for each peer, read
messages and push them; `get_received` takes all there are, whenever the loop comes to it. A section
under the lock is one step, and so a reader can wait at the lock with a message it has read.

`inbox_exact` — what the calls of `get_received` have returned, and then the buffer, is what has been
pushed; the loop handles it in this order.
-/

namespace OmniKV
namespace Inbox

open Routing (batch)

variable {ι OP Msg Storage : Type}

inductive ReaderPhase (Msg : Type) where
  | idle
  | reading
  | holding (m : Envelope Msg)

/-- A reader task, with the number of its connection. -/
structure Reader (Msg : Type) where
  connection : Nat
  phase : ReaderPhase Msg

/-- The loop, whose `received` is `incoming_msg_buf`, and the reader tasks. -/
structure Process (ι OP Msg : Type) where
  loop : Loop OP Msg
  reader : ι → Reader Msg

inductive Event (ι Msg Storage : Type) where
  | connect (i : ι)
  | read (i : ι) (m : Envelope Msg)
  | push (i : ι)
  | close (i : ι)
  | loop (e : Loop.Event Msg Storage)

variable [DecidableEq ι]

/-! ## Histories -/

def Reader.held (r : Reader Msg) : List (Envelope Msg) :=
  match r.phase with
  | .holding m => [m]
  | _ => []

section Transitions

variable (t : Machine.Transition (Process ι OP Msg) (Event ι Msg Storage))

/-- What is pushed, with the reader and the connection it comes from. -/
def pushed : List ((ι × Nat) × Envelope Msg) :=
  match t.event with
  | .push i => (t.before.reader i).held.map fun m => ((i, (t.before.reader i).connection), m)
  | _ => []

/-- What is read, with the reader and the connection it comes from. -/
def readMsgs : List ((ι × Nat) × Envelope Msg) :=
  match t.event with
  | .read i m => [((i, (t.before.reader i).connection), m)]
  | _ => []

/-- The vector a call of `get_received` returns. -/
def returned : List (List (Envelope Msg)) :=
  match t.event with
  | .loop .wake => [t.before.loop.received]
  | _ => []

/-- The message the loop of `process_incoming_msgs` takes. -/
def handled : List (Envelope Msg) :=
  match t.event with
  | .loop (.process _ m) => [m]
  | _ => []

end Transitions

/-- Those that come from one connection. -/
def ofConnection (c : ι × Nat) (l : List ((ι × Nat) × Envelope Msg)) : List (Envelope Msg) :=
  (l.filter fun p => p.1 = c).map Prod.snd

theorem flatten_flatMap {α β : Type} (f : α → List (List β)) (l : List α) :
    (l.flatMap f).flatten = l.flatMap fun a => (f a).flatten := by
  rw [← List.flatMap_id, List.flatMap_assoc]
  simp only [List.flatMap_id]

theorem ofConnection_append (c : ι × Nat) (l l' : List ((ι × Nat) × Envelope Msg)) :
    ofConnection c (l ++ l') = ofConnection c l ++ ofConnection c l' := by
  simp [ofConnection]

theorem ofConnection_flatMap {α : Type} (c : ι × Nat)
    (f : α → List ((ι × Nat) × Envelope Msg)) (l : List α) :
    ofConnection c (l.flatMap f) = l.flatMap fun a => ofConnection c (f a) := by
  simp only [ofConnection, List.filter_flatMap, List.map_flatMap]

/-- What a connection has given its reader to push. -/
def held (c : ι × Nat) (n : Process ι OP Msg) : List (Envelope Msg) :=
  if (n.reader c.1).connection = c.2 then (n.reader c.1).held else []

/-! ## Steps -/

def Process.setReader (n : Process ι OP Msg) (i : ι) (r : Reader Msg) : Process ι OP Msg :=
  { n with reader := Function.update n.reader i r }

variable [OmniPaxos OP Msg Storage] [OPMessage Msg]

inductive Step (env : Env) :
    Process ι OP Msg → Event ι Msg Storage → Process ι OP Msg → Prop where
  | connect {n : Process ι OP Msg} {i : ι} : (n.reader i).phase = .idle →
      Step env n (.connect i) (n.setReader i ⟨(n.reader i).connection + 1, .reading⟩)
  | read {n : Process ι OP Msg} {i : ι} {m : Envelope Msg} : (n.reader i).phase = .reading →
      Step env n (.read i m) (n.setReader i { n.reader i with phase := .holding m })
  | push {n : Process ι OP Msg} {i : ι} {m : Envelope Msg} : (n.reader i).phase = .holding m →
      Step env n (.push i)
        { loop := { n.loop with received := n.loop.received ++ [m] }
          reader := Function.update n.reader i { n.reader i with phase := .reading } }
  | close {n : Process ι OP Msg} {i : ι} : (n.reader i).phase = .reading →
      Step env n (.close i) (n.setReader i { n.reader i with phase := .idle })
  | loop {n : Process ι OP Msg} {e : Loop.Event Msg Storage} {l : Loop OP Msg} :
      (∀ m, e ≠ .receive m) → Loop.Step env n.loop e l → Step env n (.loop e) { n with loop := l }

def machine (env : Env) : Machine (Process ι OP Msg) (Event ι Msg Storage) where
  init n := (Loop.machine env : Machine _ (Loop.Event Msg Storage)).init n.loop ∧
    ∀ i, (n.reader i).phase = .idle
  step := Step env

variable {env : Env} {n n' : Process ι OP Msg} {e : Event ι Msg Storage}
  {tr : List (Machine.Transition (Process ι OP Msg) (Event ι Msg Storage))}

/-! ## What a step moves -/

theorem Step.received (hs : Step env n e n') :
    (returned ⟨n, e, n'⟩).flatten ++ n'.loop.received =
      n.loop.received ++ (pushed ⟨n, e, n'⟩).map Prod.snd := by
  cases hs with
  | connect _ | read _ | close _ => simp [returned, pushed, Process.setReader]
  | push hphase => simp [returned, pushed, Reader.held, hphase]
  | loop hother hl =>
    cases hl with
    | receive => exact absurd rfl (hother _)
    | wake _ => simp [returned, pushed]
    | process _ _ | tick _ | drain _ | send _ | sent _ | apply _ _ | heartbeat _ =>
      simp [returned, pushed]

theorem Step.batch (hs : Step env n e n') :
    handled ⟨n, e, n'⟩ ++ batch n'.loop.phase =
      batch n.loop.phase ++ (returned ⟨n, e, n'⟩).flatten := by
  cases hs with
  | connect _ | read _ | close _ | push _ => simp [returned, handled, Process.setReader]
  | loop hother hl =>
    cases hl with
    | receive => exact absurd rfl (hother _)
    | wake hphase => simp [returned, handled, Routing.batch, hphase]
    | process hphase _ | tick hphase | drain hphase | send hphase | sent hphase | apply hphase _ =>
      simp [returned, handled, Routing.batch, hphase]
    | heartbeat _ => simp [returned, handled]

/-- Of one connection, what is read goes to its reader, and from there into the buffer. -/
theorem Step.held (c : ι × Nat) (hs : Step env n e n') :
    ofConnection c (pushed ⟨n, e, n'⟩) ++ held c n' =
      held c n ++ ofConnection c (readMsgs ⟨n, e, n'⟩) := by
  obtain ⟨j, k⟩ := c
  cases hs with
  | @connect i hphase | @close i hphase =>
    by_cases hj : j = i
    · subst hj
      simp [pushed, readMsgs, ofConnection, Inbox.held, Process.setReader, Reader.held, hphase]
    · simp [pushed, readMsgs, ofConnection, Inbox.held, Process.setReader, hj]
  | @read i m hphase =>
    by_cases hj : j = i
    · subst hj
      by_cases hk : (n.reader j).connection = k
      · simp [pushed, readMsgs, ofConnection, Inbox.held, Process.setReader, Reader.held, hphase, hk]
      · simp [pushed, readMsgs, ofConnection, Inbox.held, Process.setReader, hk]
    · simp [pushed, readMsgs, ofConnection, Inbox.held, Process.setReader, hj, Ne.symm hj]
  | @push i m hphase =>
    by_cases hj : j = i
    · subst hj
      by_cases hk : (n.reader j).connection = k
      · simp [pushed, readMsgs, ofConnection, Inbox.held, Reader.held, hphase, hk]
      · simp [pushed, readMsgs, ofConnection, Inbox.held, Reader.held, hphase, hk]
    · simp [pushed, readMsgs, ofConnection, Inbox.held, Reader.held, hphase, hj, Ne.symm hj]
  | loop _ _ => simp [pushed, readMsgs, ofConnection, Inbox.held]

/-! ## Runs -/

theorem init_loop (h : (machine env : Machine _ (Event ι Msg Storage)).init n) :
    n.loop.received = [] ∧ batch n.loop.phase = [] := by
  obtain ⟨⟨api, op, db, restarted, s, -, hl⟩, -⟩ := h
  rw [hl]
  exact ⟨rfl, rfl⟩

/-- The loop sees the readers as messages that come in at any time. -/
theorem loop_run (hrun : (machine env).Run tr n) :
    ∃ tr' : List (Machine.Transition (Loop OP Msg) (Loop.Event Msg Storage)),
      (Loop.machine env).Run tr' n.loop := by
  induction hrun with
  | nil h => exact ⟨[], .nil h.1⟩
  | snoc _ hs ih =>
    obtain ⟨tr', hrun'⟩ := ih
    cases hs with
    | connect _ | read _ | close _ => exact ⟨tr', hrun'⟩
    | push _ => exact ⟨_, hrun'.snoc .receive⟩
    | loop _ hl => exact ⟨_, hrun'.snoc hl⟩

/-- What the calls of `get_received` have returned, and then the buffer, is what has been pushed. What
is returned is handled once and in order, and so are the messages of one connection, in the order in
which they were read. -/
theorem inbox_exact (hrun : (machine env).Run tr n) :
    (tr.flatMap returned).flatten ++ n.loop.received = (tr.flatMap pushed).map Prod.snd ∧
    tr.flatMap handled ++ batch n.loop.phase = (tr.flatMap returned).flatten ∧
    ∀ c, ofConnection c (tr.flatMap pushed) ++ held c n = ofConnection c (tr.flatMap readMsgs) ∧
      ofConnection c ((tr.flatMap pushed).take (tr.flatMap handled).length) <+:
        ofConnection c (tr.flatMap readMsgs) := by
  have hreceived := hrun.conserved (fun n => n.loop.received) (fun t => (returned t).flatten)
    (fun t => (pushed t).map Prod.snd) (fun _ h => (init_loop h).1) fun _ _ _ hs => hs.received
  have hbatch := hrun.conserved (fun n => batch n.loop.phase) handled
    (fun t => (returned t).flatten) (fun _ h => (init_loop h).2) fun _ _ _ hs => hs.batch
  rw [← List.map_flatMap, ← flatten_flatMap] at hreceived
  rw [← flatten_flatMap] at hbatch
  refine ⟨hreceived, hbatch, fun c => ?_⟩
  have hheld := hrun.conserved (held c) (fun t => ofConnection c (pushed t))
    (fun t => ofConnection c (readMsgs t)) (fun _ h => by simp [held, Reader.held, h.2 c.1])
    fun _ _ _ hs => Step.held c hs
  rw [← ofConnection_flatMap, ← ofConnection_flatMap] at hheld
  refine ⟨hheld, ?_⟩
  have hsplit := congrArg (ofConnection c)
    (List.take_append_drop (tr.flatMap handled).length (tr.flatMap pushed))
  rw [ofConnection_append] at hsplit
  exact (List.prefix_append _ _).trans (hsplit ▸ hheld ▸ List.prefix_append _ _)

/-- Two readers push; while the loop handles their messages, the first one pushes another. -/
theorem interleaved_run : ∃ (tr : List (Machine.Transition (Process Nat Replica ReplicaMsg)
      (Event Nat ReplicaMsg Replica))) (n : Process Nat Replica ReplicaMsg),
    (machine sampleEnv).Run tr n ∧
    tr.flatMap handled = [⟨0, .omniPaxosMsg ⟨1, 2⟩⟩] ∧ n.loop.received = [⟨0, .reconnect 2⟩] := by
  have hrun := Machine.Run.nil (M := (machine sampleEnv :
      Machine (Process Nat Replica ReplicaMsg) (Event Nat ReplicaMsg Replica)))
    (s := ⟨⟨_, .select, [], 0⟩, fun _ => ⟨0, .idle⟩⟩)
    ⟨⟨.error .client, Replica.opened (sampleLogs 0) 1 (.create []), Database.empty, false, _, rfl,
      rfl⟩, fun _ => rfl⟩
  have hrun := hrun.snoc (.connect (i := 0) rfl)
  have hrun := hrun.snoc (.read (m := ⟨0, .reconnect 3⟩) (i := 0) rfl)
  have hrun := hrun.snoc (.connect (i := 2) rfl)
  have hrun := hrun.snoc (.read (m := ⟨0, .omniPaxosMsg ⟨1, 2⟩⟩) (i := 2) rfl)
  have hrun := hrun.snoc (.push (i := 2) rfl)
  have hrun := hrun.snoc (.push (i := 0) rfl)
  have hrun := hrun.snoc (.loop (fun _ => by simp) (.wake rfl))
  have hrun := hrun.snoc (.read (m := ⟨0, .reconnect 2⟩) (i := 0) rfl)
  have hrun := hrun.snoc (.push (i := 0) rfl)
  have hrun := hrun.snoc (.loop (fun _ => by simp) (.process (w := sampleWorld (.opened (sampleLogs 1) 0
    (.create []))) rfl rfl))
  exact ⟨_, _, hrun, rfl, rfl⟩

theorem inbox_exact_sample : ∃ (tr : List (Machine.Transition (Process Nat Replica ReplicaMsg)
      (Event Nat ReplicaMsg Replica))) (n : Process Nat Replica ReplicaMsg),
    (machine sampleEnv).Run tr n ∧ tr.flatMap handled = [⟨0, .omniPaxosMsg ⟨1, 2⟩⟩] ∧
    (tr.flatMap returned).flatten ++ [⟨0, .reconnect 2⟩] = (tr.flatMap pushed).map Prod.snd := by
  obtain ⟨tr, n, hrun, hhandled, hreceived⟩ := interleaved_run
  have hall := (inbox_exact hrun).1
  rw [hreceived] at hall
  exact ⟨tr, n, hrun, hhandled, hall⟩

end Inbox
end OmniKV
