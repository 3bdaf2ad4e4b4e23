import OmniKV.Inbox

/-!
# Answers

What the client hears of a node. A `Get` is answered from the node's own database when its turn in the
batch comes, whatever is still undecided by then, and each call of `handle_decided_entries` that moves
`last_decided_idx` tells the client the decided index.

The answers come in the order in which the reader tasks have pushed the requests, and none is left out
or given twice (`answers_exact`).
-/

namespace OmniKV
namespace Answers

open Inbox (Process handled pushed returned)
open OmniPaxos (getDecidedIdx isReconfigured)
open Routing (batch)

variable {ι OP Msg Storage : Type}

/-- What is sent to the client. -/
def toClient (sent : List (Nat × Message Msg)) : List APIResponse :=
  sent.filterMap fun
    | (_, .apiResponse resp) => some resp
    | _ => none

/-- The keys that messages ask for. -/
def getKeys (ms : List (Envelope Msg)) : List String :=
  ms.filterMap fun m =>
    match m.body with
    | .apiRequest (.get key) => some key
    | _ => none

def answerKeys (resps : List APIResponse) : List String :=
  resps.filterMap fun
    | .get key _ => some key
    | _ => none

theorem toClient_append (sent more : List (Nat × Message Msg)) :
    toClient (sent ++ more) = toClient sent ++ toClient more := by
  simp [toClient]

theorem toClient_eq_nil {sent : List (Nat × Message Msg)}
    (h : ∀ x ∈ sent, ∀ resp, x.2 ≠ .apiResponse resp) : toClient sent = [] := by
  refine List.filterMap_eq_nil_iff.mpr fun x hx => ?_
  obtain ⟨r, m⟩ := x
  cases m with
  | apiResponse resp => exact absurd rfl (h _ hx resp)
  | _ => rfl

/-! ## What a step says -/

variable [OmniPaxos OP Msg Storage]

/-- What handling a message says to the client. -/
def answer (s : Server OP Msg) : Message Msg → List APIResponse
  | .apiRequest (.get key) => [.get key (s.database.get key)]
  | _ => []

/-- What `handle_decided_entries` says, if it leaves the server `s'`. -/
def notice (s s' : Server OP Msg) : List APIResponse :=
  if s.readIdx < getDecidedIdx s.omniPaxos ∧ isReconfigured s'.omniPaxos = none then
    [.decided (getDecidedIdx s.omniPaxos)]
  else []

/-- What a step of the process says. -/
def said (t : Machine.Transition (Process ι OP Msg) (Inbox.Event ι Msg Storage)) :
    List APIResponse :=
  match t.event with
  | .loop (.process _ m) => answer t.before.loop.server m.body
  | .loop (.apply _) => notice t.before.loop.server t.after.loop.server
  | _ => []

variable {env : Env} {w : World Storage} {s s' : Server OP Msg}

theorem toClient_sends {P : Message Msg → Prop} (h : Server.Sends P s s')
    (hP : ∀ resp, ¬P (.apiResponse resp)) : toClient s'.network.sent = toClient s.network.sent := by
  obtain ⟨more, hsent, hok⟩ := h
  have hnone : toClient more = [] :=
    toClient_eq_nil fun x hx resp heq => hP resp (heq ▸ hok x hx)
  rw [hsent, toClient_append, hnone, List.append_nil]

theorem handleMsg_toClient {m : Message Msg} (h : s.handleMsg env w m = .ok s') :
    toClient s'.network.sent = toClient s.network.sent ++ answer s m := by
  cases Server.handleMsg_cases h with
  | get key => simp [toClient, answer]
  | @append cmd op hget _ =>
    cases cmd with
    | get key => exact absurd rfl (hget key)
    | put _ | delete _ => simp [answer]
  | omniPaxosMsg _ | stateCatchup _ | reconnected _ | leads _ => simp [answer]
  | quiet _ | propose _ _ _ => simp [answer, (Server.checkReplicas_fst env w s).2]

theorem handleDecidedEntries_toClient (h : s.handleDecidedEntries env w = .ok s') :
    toClient s'.network.sent = toClient s.network.sent ++ notice s s' := by
  unfold Server.handleDecidedEntries at h
  dsimp only at h
  split at h
  · rename_i hlt
    split at h
    · cases h
    · split at h
      · cases h
      · rename_i s₁ hupdate
        cases h
        have hquiet : Server.Sends (fun m => ∀ resp, m ≠ .apiResponse resp)
            { s with lastDecidedIdx := s.readIdx } s₁ :=
          Server.updateDatabase_rel (fun s => .of_sent_eq rfl) (fun _ _ _ => Server.Sends.trans)
            (fun _ _ _ => Server.applyEntry_sends (by simp)) hupdate
        have hsame := toClient_sends hquiet fun resp hok => hok resp rfl
        rw [notice, Server.finishDecided_omniPaxos, ← hsame]
        unfold Server.finishDecided
        split
        · rename_i hstop
          simp [hstop]
        · rename_i hstop
          rw [if_pos ⟨hlt, hstop⟩, Server.send_sent, toClient_append]
          rfl
  · rename_i hge
    cases h
    rw [notice, if_neg fun hlt => hge hlt.1, List.append_nil]

/-- A message handled is answered with the key it asks for. -/
theorem answerKeys_said (t : Machine.Transition (Process ι OP Msg) (Inbox.Event ι Msg Storage)) :
    answerKeys (said t) = getKeys (handled t) := by
  obtain ⟨n, e, n'⟩ := t
  cases e with
  | connect _ | read _ _ | push _ | close _ => rfl
  | loop e =>
    cases e with
    | process w m =>
      obtain ⟨conf, body⟩ := m
      cases body with
      | apiRequest cmd => cases cmd <;> rfl
      | _ => rfl
    | apply w =>
      simp only [said, notice, handled]
      split <;> rfl
    | _ => rfl

/-! ## Runs -/

variable [OPMessage Msg] [DecidableEq ι] {n n' : Process ι OP Msg} {e : Inbox.Event ι Msg Storage}
  {tr : List (Machine.Transition (Process ι OP Msg) (Inbox.Event ι Msg Storage))}

theorem step_toClient (hs : Inbox.Step env n e n') :
    toClient n'.loop.server.network.sent =
      toClient n.loop.server.network.sent ++ said ⟨n, e, n'⟩ := by
  cases hs with
  | connect _ | read _ | close _ | push _ => exact (List.append_nil _).symm
  | loop _ hl =>
    cases hl with
    | process _ hs => exact handleMsg_toClient hs
    | apply _ hs => exact handleDecidedEntries_toClient hs
    | send _ => simp [toClient, said]
    | heartbeat _ =>
      have hquiet : Server.Sends (fun m => ∀ resp, m ≠ .apiResponse resp) n.loop.server
          (n.loop.server.debugHeartbeat env) := Server.sends_sendAll _ _ (by simp)
      rw [toClient_sends hquiet fun resp hok => hok resp rfl]
      exact (List.append_nil _).symm
    | receive | wake _ | drain _ | sent _ | tick _ => exact (List.append_nil _).symm

/-- What has been handled, what is left of the batch and what waits in the buffer is what has been
pushed. -/
theorem handled_run (hrun : (Inbox.machine env).Run tr n) :
    tr.flatMap handled ++ (batch n.loop.phase ++ n.loop.received) =
      tr.flatMap fun t => (pushed t).map Prod.snd := by
  refine hrun.conserved (fun n => batch n.loop.phase ++ n.loop.received) handled
    (fun t => (pushed t).map Prod.snd) (fun n h => ?_) fun n e n' hs => ?_
  · obtain ⟨hreceived, hbatch⟩ := Inbox.init_loop h
    rw [hreceived, hbatch]
    rfl
  · rw [← List.append_assoc, hs.batch, List.append_assoc, hs.received, List.append_assoc]

theorem toClient_run (hrun : (Inbox.machine env).Run tr n) :
    toClient n.loop.server.network.sent = tr.flatMap said := by
  induction hrun with
  | nil h0 =>
    obtain ⟨⟨api, op, db, restarted, s, hrecover, hl⟩, -⟩ := h0
    rw [hl, Server.recover_ok hrecover]
    rfl
  | snoc _ hs ih => rw [step_toClient hs, List.flatMap_append, List.flatMap_singleton, ih]

theorem answerKeys_run (hrun : (Inbox.machine env).Run tr n) :
    answerKeys (tr.flatMap said) ++ getKeys (batch n.loop.phase ++ n.loop.received) =
      getKeys (tr.flatMap fun t => (pushed t).map Prod.snd) := by
  have hkeys : answerKeys (tr.flatMap said) = getKeys (tr.flatMap handled) := by
    rw [answerKeys, List.filterMap_flatMap, getKeys, List.filterMap_flatMap]
    exact List.flatMap_congr fun t _ => answerKeys_said t
  rw [hkeys, ← handled_run hrun, getKeys, getKeys, getKeys, ← List.filterMap_append]

/-- In every run, however the reader tasks push while the loop is busy: the client is told the value that
the database has when the request is handled, and the decided index by each call that moves it; and the
keys answered, and then those still asked for in the batch and the buffer, are the keys asked for, in the
order in which the requests were pushed. -/
theorem answers_exact (hrun : (Inbox.machine env).Run tr n) :
    toClient n.loop.server.network.sent = tr.flatMap said ∧
    answerKeys (toClient n.loop.server.network.sent) ++
      getKeys (batch n.loop.phase ++ n.loop.received) =
        getKeys (tr.flatMap fun t => (pushed t).map Prod.snd) := by
  refine ⟨toClient_run hrun, ?_⟩
  rw [toClient_run hrun]
  exact answerKeys_run hrun

/-- Two requests are pushed, the first one is handled, and the second one waits. -/
theorem waiting_run : ∃ (tr : List (Machine.Transition (Process Nat Replica ReplicaMsg)
      (Inbox.Event Nat ReplicaMsg Replica))) (n : Process Nat Replica ReplicaMsg),
    (Inbox.machine sampleEnv).Run tr n ∧
    toClient n.loop.server.network.sent = [.get "a" none] ∧
    batch n.loop.phase ++ n.loop.received = [⟨0, .apiRequest (.get "b")⟩] := by
  have hrun := Machine.Run.nil (M := (Inbox.machine sampleEnv :
      Machine (Process Nat Replica ReplicaMsg) (Inbox.Event Nat ReplicaMsg Replica)))
    (s := ⟨⟨_, .select, [], 0⟩, fun _ => ⟨0, .idle⟩⟩)
    ⟨⟨.error .client, Replica.opened (sampleLogs 0) 1 (.create []), Database.empty, false, _, rfl,
      rfl⟩, fun _ => rfl⟩
  have hrun := hrun.snoc (.connect (i := 0) rfl)
  have hrun := hrun.snoc (.read (m := ⟨0, .apiRequest (.get "a")⟩) (i := 0) rfl)
  have hrun := hrun.snoc (.push (i := 0) rfl)
  have hrun := hrun.snoc (.loop (fun _ => by simp) (.wake rfl))
  have hrun := hrun.snoc (.read (m := ⟨0, .apiRequest (.get "b")⟩) (i := 0) rfl)
  have hrun := hrun.snoc (.push (i := 0) rfl)
  have hrun := hrun.snoc (.loop (fun _ => by simp) (.process (w := sampleWorld (.opened (sampleLogs 1) 0
    (.create []))) rfl rfl))
  exact ⟨_, _, hrun, rfl, rfl⟩

theorem answers_exact_sample : ∃ (tr : List (Machine.Transition (Process Nat Replica ReplicaMsg)
      (Inbox.Event Nat ReplicaMsg Replica))) (n : Process Nat Replica ReplicaMsg),
    (Inbox.machine sampleEnv).Run tr n ∧ tr.flatMap said = [.get "a" none] ∧
    getKeys (tr.flatMap fun t => (pushed t).map Prod.snd) = ["a", "b"] := by
  obtain ⟨tr, n, hrun, hclient, hwaiting⟩ := waiting_run
  obtain ⟨hsaid, hkeys⟩ := answers_exact hrun
  rw [hclient, hwaiting] at hkeys
  exact ⟨tr, n, hrun, hsaid.symm.trans hclient, hkeys.symm⟩

end Answers
end OmniKV
