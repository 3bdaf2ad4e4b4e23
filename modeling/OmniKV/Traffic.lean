import OmniKV.Proposals
import OmniKV.Routing

/-!
# Traffic

The whole traffic of a cluster: all that the nodes send each other, delayed and overtaken at will, and
the requests of clients.

Two arms of `process_incoming_msgs` are never taken there: nobody sends a `Reconnect`, and an
`APIResponse` goes to clients only, so that `unimplemented!()` is not reached (`only_expected`). And it is
the heartbeats of the others alone that make a node look at the replica count: without them it does
not notice a change of scale (`unnoticed`).
-/

namespace OmniKV
namespace Traffic

open Routing (batch buffered mem_buffered)
open Lifetime (SameCount)

variable {OP Msg Storage : Type} {P : Nat × Message Msg → Prop} {s s' : Server OP Msg}

/-! ## What a step sends -/

/-- On the way from `s` to `s'` only messages that meet `P` are sent, with their receivers. -/
def SendsOnly (P : Nat × Message Msg → Prop) (s s' : Server OP Msg) : Prop :=
  ∃ more, s'.network.sent = s.network.sent ++ more ∧ ∀ x ∈ more, P x

theorem SendsOnly.of_sent_eq (h : s'.network.sent = s.network.sent) : SendsOnly P s s' :=
  ⟨[], by rw [h, List.append_nil], by simp⟩

theorem SendsOnly.trans {s'' : Server OP Msg} (h : SendsOnly P s s') (h' : SendsOnly P s' s'') :
    SendsOnly P s s'' := by
  obtain ⟨more, hsent, hok⟩ := h
  obtain ⟨more', hsent', hok'⟩ := h'
  refine ⟨more ++ more', by rw [hsent', hsent, List.append_assoc], fun x hx => ?_⟩
  exact (List.mem_append.mp hx).elim (hok x) (hok' x)

theorem sendsOnly_send (s : Server OP Msg) {receiver : Nat} {m : Message Msg}
    (h : P (receiver, m)) : SendsOnly P s (s.send receiver m) := ⟨_, rfl, by simpa using h⟩

theorem SendsOnly.drop (h : SendsOnly P s s') :
    ∀ x ∈ s'.network.sent.drop s.network.sent.length, P x := by
  obtain ⟨more, hsent, hok⟩ := h
  rwa [hsent, List.drop_left]

variable [OmniPaxos OP Msg Storage] [OPMessage Msg] {env : Env} {w : World Storage}

/-- Who a message goes to, and which step of the loop sends it. -/
inductive Addressed (env : Env) : Loop.Event Msg Storage → Nat × Message Msg → Prop where
  | client {e : Loop.Event Msg Storage} (resp : APIResponse) :
      Addressed env e (0, .apiResponse resp)
  | protocol (msg : Msg) : Addressed env (.send msg) (OPMessage.getReceiver msg, .omniPaxosMsg msg)
  | catchup {w : World Storage} {pid : Nat} (kvList : List (String × String)) : pid ∈ env.peers →
      Addressed env (.apply w) (pid, .stateCatchup kvList)
  | heartbeat {pid : Nat} (text : String) : pid ∈ env.peers →
      Addressed env .heartbeat (pid, .debug text)

theorem handleMsg_sendsOnly {e : Loop.Event Msg Storage} {m : Message Msg}
    (h : s.handleMsg env w m = .ok s') : SendsOnly (Addressed env e) s s' := by
  cases Server.handleMsg_cases h with
  | get key => exact sendsOnly_send s (.client _)
  | quiet _ | propose _ _ _ =>
    exact .of_sent_eq (congrArg Network.sent (Server.checkReplicas_fst env w s).2)
  | append _ _ | omniPaxosMsg _ | stateCatchup _ | reconnected _ | leads _ => exact .of_sent_eq rfl

theorem handleDecidedEntries_sendsOnly (h : s.handleDecidedEntries env w = .ok s') :
    SendsOnly (Addressed env (.apply w)) s s' := by
  refine Server.handleDecidedEntries_rel (R := SendsOnly (Addressed env (.apply w)))
    (fun _ => .of_sent_eq rfl) (fun _ _ _ => SendsOnly.trans) (fun s s' e hentry => ?_)
    (fun _ _ => .of_sent_eq rfl) (fun s d => ?_) h
  · unfold Server.applyEntry at hentry
    split at hentry
    · cases hentry
      exact .of_sent_eq rfl
    · cases hentry
      exact .of_sent_eq rfl
    · obtain ⟨storage, op, -, -, rfl⟩ := Server.applyStopSign_ok hentry
      refine ⟨_, rfl, fun x hx => ?_⟩
      unfold Server.catchups at hx
      split at hx
      · split at hx
        · cases hx
        · obtain ⟨pid, hpid, rfl⟩ := List.mem_map.mp hx
          exact .catchup _ hpid
      · cases hx
    · cases hentry
      exact .of_sent_eq rfl
  · unfold Server.finishDecided
    split
    · exact .of_sent_eq rfl
    · exact sendsOnly_send _ (.client _)

theorem step_sendsOnly {l l' : Loop OP Msg} {e : Loop.Event Msg Storage}
    (hs : Loop.Step env l e l') : SendsOnly (Addressed env e) l.server l'.server := by
  cases hs with
  | process _ hs => exact handleMsg_sendsOnly hs
  | send _ => exact sendsOnly_send _ (.protocol _)
  | apply _ hs => exact handleDecidedEntries_sendsOnly hs
  | heartbeat _ =>
    have hsent := congrArg Server.network (Server.sendAll_eq l.server env.peers
      (.debug ("Heartbeat from node " ++ toString env.pid)))
    refine ⟨_, congrArg Network.sent hsent, fun x hx => ?_⟩
    obtain ⟨pid, hpid, rfl⟩ := List.mem_map.mp hx
    exact .heartbeat _ hpid
  | receive | wake _ | drain _ | sent _ | tick _ => exact .of_sent_eq rfl

/-! ## The cluster -/

def sends (t : Machine.Transition (Loop OP Msg) (Loop.Event Msg Storage)) :
    List (Nat × Message Msg) :=
  (t.after.server.network.sent.drop t.before.server.network.sent.length).filter fun x => x.1 ≠ 0

/-- Requests come from clients, everything else from the other nodes. -/
def takes : Loop.Event Msg Storage → Option (Message Msg)
  | .receive m =>
    match m.body with
    | .apiRequest _ => none
    | body => some body
  | _ => none

def cluster (env : Nat → Env) :
    Net.Spec Nat (Loop OP Msg) (Loop.Event Msg Storage) (Message Msg) where
  machine p := Loop.machine (env p)
  sends := sends
  takes := takes

/-- What the others send to `p`: heartbeats only if somebody's beat is for it. -/
inductive FromPeer (beats : Nat → Prop) (p : Nat) : Message Msg → Prop where
  | protocol {msg : Msg} : OPMessage.getReceiver msg = p → FromPeer beats p (.omniPaxosMsg msg)
  | catchup (kvList : List (String × String)) : FromPeer beats p (.stateCatchup kvList)
  | heartbeat (text : String) : beats p → FromPeer beats p (.debug text)

/-- What comes to `p` comes from the others or from clients. -/
structure Sound (beats : Nat → Prop) (net : Net Nat (Loop OP Msg) (Message Msg)) : Prop where
  link : ∀ q p, ∀ m ∈ net.link q p, FromPeer beats p m
  buffer : ∀ p, ∀ m ∈ buffered (net.party p),
    FromPeer beats p m.body ∨ ∃ cmd, m.body = .apiRequest cmd

section Transitions

variable (t : Machine.Transition (Net Nat (Loop OP Msg) (Message Msg))
  (Net.Event Nat (Loop.Event Msg Storage)))

/-- A heartbeat is sent only to nodes in `beats`. -/
def BeatsOnly (env : Nat → Env) (beats : Nat → Prop) : Prop :=
  t.event.event = .heartbeat → ∀ p ∈ (env t.event.party).peers, beats p

end Transitions

variable {nodes : Nat → Env} {beats : Nat → Prop} {net net' : Net Nat (Loop OP Msg) (Message Msg)}
  {e : Net.Event Nat (Loop.Event Msg Storage)}
  {tr : List (Machine.Transition (Net Nat (Loop OP Msg) (Message Msg))
    (Net.Event Nat (Loop.Event Msg Storage)))}

omit [OPMessage Msg] in
theorem takes_receive {m : Envelope Msg} (h : ∀ cmd, m.body ≠ .apiRequest cmd) :
    takes (.receive m : Loop.Event Msg Storage) = some m.body := by
  obtain ⟨conf, body⟩ := m
  cases body with
  | apiRequest cmd => exact absurd rfl (h cmd)
  | _ => rfl

theorem Sound.step (h : Sound beats net) (hs : (Net.machine (cluster nodes)).step net e net')
    (hbeats : BeatsOnly ⟨net, e, net'⟩ nodes beats) : Sound beats net' := by
  have hmoves : Loop.Step (nodes e.party) (net.party e.party) e.event (net'.party e.party) :=
    Net.Step.moves hs
  constructor
  · intro q p m hm
    rcases Net.Step.mem_link hs hm with hold | ⟨-, hsent⟩
    · exact h.link q p m hold
    · obtain ⟨hsent, hclient⟩ := List.mem_filter.mp hsent
      generalize hevent : e.event = a at hmoves
      cases (step_sendsOnly hmoves).drop _ hsent with
      | client resp => simp at hclient
      | protocol msg => exact .protocol rfl
      | catchup kvList _ => exact .catchup kvList
      | heartbeat text hpeer => exact .heartbeat text (hbeats hevent p hpeer)
  · intro p m hm
    by_cases hp : p = e.party
    · subst hp
      rcases mem_buffered hmoves hm with hold | hevent
      · exact h.buffer _ m hold
      · by_cases hclient : ∃ cmd, m.body = .apiRequest cmd
        · exact Or.inr hclient
        · have htaken : takes e.event = some m.body := by
            rw [hevent]
            exact takes_receive fun cmd hbody => hclient ⟨cmd, hbody⟩
          obtain ⟨q, hlink⟩ := Net.Step.takes hs htaken
          exact Or.inl (h.link q _ _ hlink)
    · rw [Net.Step.stays hs hp] at hm
      exact h.buffer p m hm

theorem Sound.init (h : (Net.machine (cluster nodes : Net.Spec Nat (Loop OP Msg)
    (Loop.Event Msg Storage) _)).init net) : Sound beats net := by
  obtain ⟨hparty, hlink⟩ := h
  constructor
  · intro q p m hm
    rw [hlink] at hm
    cases hm
  · intro p m hm
    obtain ⟨api, op, db, restarted, s, -, heq⟩ := hparty p
    rw [heq] at hm
    cases hm

theorem Sound.head (h : Sound beats net) {p : Nat} {m : Envelope Msg} {rest : List (Envelope Msg)}
    (hphase : (net.party p).phase = .processing (m :: rest)) :
    FromPeer beats p m.body ∨ ∃ cmd, m.body = .apiRequest cmd := by
  refine h.buffer p m ?_
  rw [buffered, hphase]
  exact List.mem_cons_self

omit [OPMessage Msg] in
theorem handleMsg_ne_unimplemented {m : Message Msg} (hm : ∀ resp, m ≠ .apiResponse resp) :
    s.handleMsg env w m ≠ .error .unimplemented := by
  intro h
  cases Server.handleMsg_panics h with
  | apiResponse resp => exact hm resp rfl

/-- Only a heartbeat makes a node look at the replica count. -/
theorem step_sameCount {l l' : Loop OP Msg} {e : Loop.Event Msg Storage} (hs : Loop.Step env l e l')
    (hdebug : ∀ w m, e = .process w m → ∀ text, m.body ≠ .debug text) :
    SameCount l.server l'.server := by
  cases hs with
  | @process w m rest s _ hs =>
    obtain ⟨conf, body⟩ := m
    cases Server.handleMsg_cases hs with
    | quiet _ | propose _ _ _ => exact absurd rfl (hdebug w _ rfl _)
    | get _ | append _ _ | omniPaxosMsg _ | stateCatchup _ | reconnected _ | leads _ => exact ⟨rfl, rfl⟩
  | apply _ hs => exact Lifetime.handleDecidedEntries_sameCount hs
  | heartbeat _ =>
    show SameCount _ (Server.sendAll _ _ _)
    rw [Server.sendAll_eq]
    exact ⟨rfl, rfl⟩
  | receive | wake _ | drain _ | send _ | sent _ | tick _ => exact ⟨rfl, rfl⟩

/-- In every run, whatever clients request and however messages are delayed and overtake each other: the
next message that a node is about to handle is a request, a protocol message for this node, a state
transfer or a heartbeat. So no node ever takes the arm for `Reconnect`, or panics with
`unimplemented!()`. -/
theorem only_expected (hrun : (Net.machine (cluster nodes)).Run tr net) {p : Nat}
    {m : Envelope Msg} {rest : List (Envelope Msg)}
    (hphase : (net.party p).phase = .processing (m :: rest)) :
    (FromPeer (fun _ => True) p m.body ∨ ∃ cmd, m.body = .apiRequest cmd) ∧
    ∀ w : World Storage,
      (net.party p).server.handleMsg (nodes p) w m.body ≠ .error .unimplemented := by
  have hsound : Sound (fun _ => True) net :=
    hrun.invariant' (fun _ => Sound.init) fun _ _ _ h hs => h.step hs fun _ _ _ => trivial
  have hhead := hsound.head hphase
  refine ⟨hhead, fun w => handleMsg_ne_unimplemented ?_⟩
  rintro resp hbody
  rw [hbody] at hhead
  rcases hhead with h | ⟨cmd, h⟩
  · cases h
  · cases h

/-- In every run in which nobody sends `p` a heartbeat: `p` never looks at the replica count, whatever it
becomes, and never calls `reconfigure`. -/
theorem unnoticed (hrun : (Net.machine (cluster nodes)).Run tr net) {p : Nat}
    (hbeats : ∀ t ∈ tr, t.event.event = .heartbeat → p ∉ (nodes t.event.party).peers) :
    ∀ t ∈ tr, SameCount (t.before.party p).server (t.after.party p).server ∧
      (t.event.party = p → ∀ w m, t.event.event = .process w m → ∀ text, m.body ≠ .debug text) := by
  have hmem : ∀ t ∈ tr, Sound (fun q => q ≠ p) t.before ∧
      (Net.machine (cluster nodes)).step t.before t.event t.after :=
    hrun.of_mem (C := fun t => BeatsOnly t nodes fun q => q ≠ p) (fun _ => Sound.init)
      (fun _ _ _ h hs hC => h.step hs hC) fun t ht hbeat q hq heq => hbeats t ht hbeat (heq ▸ hq)
  intro t ht
  obtain ⟨hsound, hs⟩ := hmem t ht
  have hdebug : t.event.party = p →
      ∀ w m, t.event.event = .process w m → ∀ text, m.body ≠ .debug text := by
    rintro rfl w m hevent text hbody
    have hmoves : Loop.Step _ _ _ _ := Net.Step.moves hs
    rw [hevent] at hmoves
    obtain ⟨rest, hphase⟩ := hmoves.processing
    have hhead := hsound.head hphase
    rw [hbody] at hhead
    rcases hhead with h | ⟨cmd, h⟩
    · cases h with
      | heartbeat _ hne => exact hne rfl
    · cases h
  refine ⟨?_, hdebug⟩
  by_cases hp : p = t.event.party
  · subst hp
    exact step_sameCount (Net.Step.moves hs) (hdebug rfl)
  · rw [Net.Step.stays hs hp]
    exact ⟨rfl, rfl⟩

/-! ## A heartbeat -/

/-- Three servers in the first configuration. -/
def sampleStart : Net Nat (Loop Replica ReplicaMsg) (Message ReplicaMsg) where
  party p :=
    { server := .initial (sampleNodes p) (.error .client) (.opened (sampleLogs 0) 1 (.create []))
        Database.empty
      phase := .select
      received := []
      conf := 0 }
  link _ _ := []

theorem arrive {q p : Nat} {m : Envelope Msg} {rest : List (Message Msg)}
    (hm : ∀ cmd, m.body ≠ .apiRequest cmd) (hlink : net.link q p = m.body :: rest) :
    Net.Step (cluster nodes : Net.Spec Nat (Loop OP Msg) (Loop.Event Msg Storage) _) net
      ⟨p, .receive m, 0⟩ ((net.setLink q p rest).move p
        { net.party p with received := (net.party p).received ++ [m] }
        (sends ⟨net.party p, (.receive m : Loop.Event Msg Storage),
          { net.party p with received := (net.party p).received ++ [m] }⟩)) := by
  have htaken : takes (.receive m : Loop.Event Msg Storage) = some m.body := takes_receive hm
  exact .first htaken hlink .receive

/-- Server 1 sends its heartbeat, and server 2 is about to handle it. -/
theorem heartbeat_run : ∃ tr, ∃ net : Net Nat (Loop Replica ReplicaMsg) (Message ReplicaMsg),
    (Net.machine (cluster sampleNodes)).Run tr net ∧ tr.length = 3 ∧
    (∀ t ∈ tr, t.event.event = .heartbeat → t.event.party = 1) ∧
    (net.party 2).phase = .processing [⟨0, .debug "Heartbeat from node 1"⟩] := by
  have hrun := Machine.Run.nil (M := Net.machine (cluster sampleNodes)) (s := sampleStart)
    ⟨fun _ => ⟨.error .client, _, _, false, _, rfl, rfl⟩, fun _ _ => rfl⟩
  have hrun := hrun.snoc (.own (p := 1) rfl (.heartbeat rfl))
  have hrun := hrun.snoc (arrive (q := 1) (p := 2) (m := ⟨0, .debug "Heartbeat from node 1"⟩)
    (by simp) rfl)
  have hrun := hrun.snoc (.own (p := 2) rfl (.wake rfl))
  refine ⟨_, _, hrun, rfl, ?_, rfl⟩
  simp

theorem only_expected_sample : ∃ net : Net Nat (Loop Replica ReplicaMsg) (Message ReplicaMsg),
    (net.party 2).phase = .processing [⟨0, .debug "Heartbeat from node 1"⟩] ∧
    FromPeer (fun _ => True) 2 (.debug "Heartbeat from node 1" : Message ReplicaMsg) := by
  obtain ⟨tr, net, hrun, -, -, hphase⟩ := heartbeat_run
  refine ⟨net, hphase, ?_⟩
  rcases (only_expected hrun hphase).1 with h | ⟨cmd, h⟩
  · exact h
  · cases h

/-- Nobody sends server 1 a heartbeat. -/
theorem unnoticed_sample : ∃ tr, ∃ net : Net Nat (Loop Replica ReplicaMsg) (Message ReplicaMsg),
    (Net.machine (cluster sampleNodes)).Run tr net ∧ tr.length = 3 ∧
    ∀ t ∈ tr, SameCount (t.before.party 1).server (t.after.party 1).server := by
  obtain ⟨tr, net, hrun, hlength, hone, -⟩ := heartbeat_run
  refine ⟨tr, net, hrun, hlength, fun t ht => (unnoticed hrun (fun t ht hbeat => ?_) t ht).1⟩
  rw [hone t ht hbeat]
  decide

end Traffic
end OmniKV
