import OmniKV.EventLoop
import OmniKV.Lib.Net

/-!
# Routing

Which instance gets a protocol message. A message does not say which configuration it belongs to: the
server passes it to the instance it runs when it comes to process it. If the server has meanwhile
replaced its instance, or the sender was ahead, this is an instance of another configuration.

`stays_inside` says under which order of events messages stay inside their configuration: a server
applies a StopSign only when no protocol message is on its way to it, and sends protocol messages only
to servers in its own configuration.
-/

namespace OmniKV
namespace Routing

variable {OP Msg Storage : Type} [OmniPaxos OP Msg Storage] [OPMessage Msg]

def isProtocol : Message Msg → Bool
  | .omniPaxosMsg _ => true
  | _ => false

/-- The protocol message sent in a transition, under the configuration of the instance it comes
from. -/
def protocolSent (t : Machine.Transition (Loop OP Msg) (Loop.Event Msg Storage)) :
    List (Nat × Envelope Msg) :=
  match t.event with
  | .send msg => [(OPMessage.getReceiver msg, ⟨t.before.conf, .omniPaxosMsg msg⟩)]
  | _ => []

def protocolTaken : Loop.Event Msg Storage → Option (Envelope Msg)
  | .receive m => if isProtocol m.body then some m else none
  | _ => none

/-- Servers with protocol messages on the links; all other messages come from outside. -/
def cluster (env : Nat → Env) :
    Net.Spec Nat (Loop OP Msg) (Loop.Event Msg Storage) (Envelope Msg) where
  machine p := Loop.machine (env p)
  sends := protocolSent
  takes := protocolTaken

/-- What is left of the messages being processed. -/
def batch : Phase Msg → List (Envelope Msg)
  | .processing msgs => msgs
  | _ => []

def buffered (l : Loop OP Msg) : List (Envelope Msg) := batch l.phase ++ l.received

section Transitions

variable (t : Machine.Transition (Net Nat (Loop OP Msg) (Envelope Msg))
  (Net.Event Nat (Loop.Event Msg Storage)))

/-- A protocol message is passed to an instance of its own configuration. -/
def Inside : Prop :=
  ∀ w m, t.event.event = .process w m → isProtocol m.body = true →
    m.conf = (t.before.party t.event.party).conf

/-- A server that applies a StopSign has no protocol message on its way to it. -/
def StopsQuietly : Prop :=
  ∀ w, t.event.event = .apply w → (t.before.party t.event.party).server.readsStop = true →
    (∀ q, t.before.link q t.event.party = []) ∧
      ∀ m ∈ buffered (t.before.party t.event.party), isProtocol m.body = false

/-- A protocol message is sent while its receiver is in the configuration of its sender. -/
def SendsInside : Prop :=
  ∀ msg, t.event.event = .send msg →
    (t.before.party (OPMessage.getReceiver msg)).conf = (t.before.party t.event.party).conf

end Transitions

variable {env : Nat → Env}

/-- Every protocol message on its way to a server is of the server's configuration. -/
structure Sorted (net : Net Nat (Loop OP Msg) (Envelope Msg)) : Prop where
  linked : ∀ q p, ∀ m ∈ net.link q p, m.conf = (net.party p).conf
  buffered : ∀ p, ∀ m ∈ buffered (net.party p), isProtocol m.body = true →
    m.conf = (net.party p).conf

/-- A step of a server keeps its configuration, or applies a StopSign. -/
theorem conf_cases {env : Env} {l l' : Loop OP Msg} {e : Loop.Event Msg Storage}
    (hs : Loop.Step env l e l') :
    l'.conf = l.conf ∨ ∃ w, e = .apply w ∧ l.server.readsStop = true := by
  cases hs with
  | apply _ _ =>
    rename_i w _ _ _
    cases hstop : l.server.readsStop with
    | true => exact Or.inr ⟨_, rfl, rfl⟩
    | false => exact Or.inl rfl
  | _ => exact Or.inl rfl

theorem mem_buffered {env : Env} {l l' : Loop OP Msg} {e : Loop.Event Msg Storage}
    (hs : Loop.Step env l e l') {m : Envelope Msg} (hm : m ∈ buffered l') :
    m ∈ buffered l ∨ e = .receive m := by
  cases hs with
  | receive =>
    rw [buffered, ← List.append_assoc] at hm
    rcases List.mem_append.mp hm with hm | hm
    · exact Or.inl hm
    · rw [List.mem_singleton.mp hm]
      exact Or.inr rfl
  | process hphase _ =>
    refine Or.inl ?_
    rw [buffered, hphase]
    exact List.mem_cons_of_mem _ hm
  | wake hphase =>
    refine Or.inl ?_
    rw [buffered, hphase]
    simpa [buffered, batch] using hm
  | drain hphase | send hphase | sent hphase | apply hphase _ =>
    refine Or.inl ?_
    rw [buffered, hphase]
    exact hm
  | tick _ | heartbeat _ => exact Or.inl hm

omit [OmniPaxos OP Msg Storage] in
theorem mem_protocolSent {t : Machine.Transition (Loop OP Msg) (Loop.Event Msg Storage)} {r : Nat}
    {m : Envelope Msg} (h : (r, m) ∈ protocolSent t) :
    ∃ msg, t.event = .send msg ∧ r = OPMessage.getReceiver msg ∧ m.conf = t.before.conf := by
  obtain ⟨l, e, l'⟩ := t
  cases e with
  | send msg =>
    obtain ⟨rfl, rfl⟩ := Prod.mk.inj (List.mem_singleton.mp h)
    exact ⟨msg, rfl, rfl, rfl⟩
  | _ => cases h

theorem Sorted.step {net net' : Net Nat (Loop OP Msg) (Envelope Msg)}
    {e : Net.Event Nat (Loop.Event Msg Storage)} (h : Sorted net)
    (hs : (Net.machine (cluster env)).step net e net') (hstop : StopsQuietly ⟨net, e, net'⟩)
    (hsend : SendsInside ⟨net, e, net'⟩) : Sorted net' := by
  have hmoves : Loop.Step (env e.party) (net.party e.party) e.event (net'.party e.party) :=
    Net.Step.moves hs
  have hconf := conf_cases hmoves
  constructor
  · intro q p m hm
    rcases Net.Step.mem_link hs hm with hm | ⟨rfl, hsent⟩
    · by_cases hp : p = e.party
      · subst hp
        rcases hconf with hconf | ⟨w, he, hreads⟩
        · rw [hconf]
          exact h.linked q _ m hm
        · rw [(hstop w he hreads).1 q] at hm
          cases hm
      · rw [Net.Step.stays hs hp]
        exact h.linked q p m hm
    · obtain ⟨msg, he, hrecv, hmsg⟩ := mem_protocolSent hsent
      have hsame := hsend msg he
      have hkept : (net'.party p).conf = (net.party p).conf := by
        by_cases hp : p = e.party
        · subst hp
          exact hconf.resolve_right fun ⟨w, hw, _⟩ => by cases he.symm.trans hw
        · rw [Net.Step.stays hs hp]
      rw [hkept, hmsg, hrecv]
      exact hsame.symm
  · intro p m hm hprotocol
    by_cases hp : p = e.party
    · subst hp
      rcases mem_buffered hmoves hm with hm | he
      · rcases hconf with hconf | ⟨w, he, hreads⟩
        · rw [hconf]
          exact h.buffered _ m hm hprotocol
        · rw [(hstop w he hreads).2 m hm] at hprotocol
          cases hprotocol
      · have htaken : protocolTaken e.event = some m := by
          rw [he, protocolTaken, if_pos hprotocol]
        obtain ⟨q, hlink⟩ := Net.Step.takes hs htaken
        have hkept := hconf.resolve_right fun ⟨w, hw, _⟩ => by cases he.symm.trans hw
        rw [hkept]
        exact h.linked q _ m hlink
    · rw [Net.Step.stays hs hp] at hm ⊢
      exact h.buffered p m hm hprotocol

theorem Sorted.init {net : Net Nat (Loop OP Msg) (Envelope Msg)}
    (h : (Net.machine (cluster env : Net.Spec Nat (Loop OP Msg) (Loop.Event Msg Storage) _)).init
      net) : Sorted net := by
  obtain ⟨hparty, hlink⟩ := h
  constructor
  · intro q p m hm
    rw [hlink] at hm
    cases hm
  · intro p m hm _
    obtain ⟨api, op, db, restarted, s, -, heq⟩ := hparty p
    rw [heq] at hm
    cases hm

theorem Sorted.inside {net net' : Net Nat (Loop OP Msg) (Envelope Msg)}
    {e : Net.Event Nat (Loop.Event Msg Storage)} (h : Sorted net)
    (hs : (Net.machine (cluster env)).step net e net') : Inside ⟨net, e, net'⟩ := by
  intro w m he hprotocol
  have hmoves : Loop.Step (env e.party) (net.party e.party) e.event (net'.party e.party) :=
    Net.Step.moves hs
  rw [he] at hmoves
  obtain ⟨rest, hphase⟩ := hmoves.processing
  have hmem : m ∈ Routing.buffered (net.party e.party) := by
    rw [Routing.buffered, hphase]
    exact List.mem_cons_self
  exact h.buffered _ m hmem hprotocol

/-- In a run where servers stop quietly and send to servers of their own configuration, every protocol
message is passed to an instance of the configuration it comes from. -/
theorem stays_inside {tr : List (Machine.Transition (Net Nat (Loop OP Msg) (Envelope Msg))
      (Net.Event Nat (Loop.Event Msg Storage)))} {net : Net Nat (Loop OP Msg) (Envelope Msg)}
    (hrun : (Net.machine (cluster env)).Run tr net)
    (htr : ∀ t ∈ tr, StopsQuietly t ∧ SendsInside t) : ∀ t ∈ tr, Inside t := by
  intro t ht
  obtain ⟨hsorted, hs⟩ := hrun.of_mem (C := fun t => StopsQuietly t ∧ SendsInside t)
    (fun _ h => Sorted.init h) (fun _ _ _ hI hs hC => Sorted.step hI hs hC.1 hC.2) htr t ht
  exact hsorted.inside hs

/-! ## Messages that cross -/

/-- Three servers in the first configuration, of which server `p` has decided `d p` entries. -/
def sampleStart (d : Nat → Nat) : Net Nat (Loop Replica ReplicaMsg) (Envelope ReplicaMsg) where
  party p :=
    { server := .initial (sampleNodes p) (.error .client) (.opened (sampleLogs 0) (d p) (.create []))
        Database.empty
      phase := .select
      received := []
      conf := 0 }
  link _ _ := []

theorem sample_starts (d : Nat → Nat) :
    (Net.machine (cluster sampleNodes)).Run [] (sampleStart d) :=
  .nil ⟨fun _ => ⟨.error .client, _, _, false, _, rfl, rfl⟩, fun _ _ => rfl⟩

def nextWorld : World Replica := sampleWorld (.opened (sampleLogs 1) 0 (.create []))

theorem arrive {env : Nat → Env} {net : Net Nat (Loop OP Msg) (Envelope Msg)} {q p : Nat}
    {m : Envelope Msg} {rest : List (Envelope Msg)} (hm : isProtocol m.body = true)
    (hlink : net.link q p = m :: rest) :
    Net.Step (cluster env : Net.Spec Nat (Loop OP Msg) (Loop.Event Msg Storage) _) net
      ⟨p, .receive m, 0⟩ ((net.setLink q p rest).move p
        { net.party p with received := (net.party p).received ++ [m] } []) :=
  .first (if_pos hm) hlink .receive

/-- Server 1 sends a message to server 2, which passes the StopSign before the message arrives. -/
theorem old_message_run : ∃ tr, ∃ net : Net Nat (Loop Replica ReplicaMsg) (Envelope ReplicaMsg),
    (Net.machine (cluster sampleNodes)).Run tr net ∧ (∀ t ∈ tr, t.event.overtakes = 0) ∧
    ∃ t ∈ tr, ∃ w m, t.event.event = .process w m ∧ isProtocol m.body = true ∧ m.conf = 0 ∧
      (t.before.party t.event.party).conf = 1 := by
  have hrun := sample_starts fun p => if p = 1 then 1 else 2
  have hrun := hrun.snoc (.own (p := 1) rfl (.tick rfl))
  have hrun := hrun.snoc (.own (p := 1) rfl (.wake rfl))
  have hrun := hrun.snoc (.own (p := 1) rfl (.drain rfl))
  have hrun := hrun.snoc (.own (p := 1) rfl (.send rfl))
  have hrun := hrun.snoc (.own (p := 2) rfl (.wake rfl))
  have hrun := hrun.snoc (.own (p := 2) rfl (.drain rfl))
  have hrun := hrun.snoc (.own (p := 2) rfl (.sent rfl))
  have hrun := hrun.snoc (.own (p := 2) rfl (.apply rfl
    (Server.handleDecidedEntries_swap (sampleNodes 2) (w := nextWorld) (L := sampleLogs 0)
      (Replica.shows_uncompacted rfl le_rfl) Nat.two_pos rfl rfl rfl rfl)))
  have hrun := hrun.snoc (arrive (q := 1) (p := 2) (m := ⟨0, .omniPaxosMsg ⟨2, 1⟩⟩) rfl rfl)
  have hrun := hrun.snoc (.own (p := 2) rfl (.wake rfl))
  have hrun := hrun.snoc (.own (p := 2) rfl (.process (w := nextWorld) rfl rfl))
  refine ⟨_, _, hrun, ?_, _, List.mem_append_right _ List.mem_cons_self, _, _, rfl, rfl, rfl, rfl⟩
  simp

/-- Server 1 sends a message to server 2, which processes it, and server 3 applies the StopSign. -/
theorem quiet_run : ∃ tr, ∃ net : Net Nat (Loop Replica ReplicaMsg) (Envelope ReplicaMsg),
    (Net.machine (cluster sampleNodes)).Run tr net ∧ (∀ t ∈ tr, StopsQuietly t ∧ SendsInside t) ∧
    (net.party 3).conf = 1 ∧ ∃ t ∈ tr, ∃ w m, t.event.event = .process w m ∧
      isProtocol m.body = true ∧ m.conf = 0 := by
  have hrun := sample_starts fun p => if p = 3 then 2 else 1
  have hrun := hrun.snoc (.own (p := 1) rfl (.tick rfl))
  have hrun := hrun.snoc (.own (p := 1) rfl (.wake rfl))
  have hrun := hrun.snoc (.own (p := 1) rfl (.drain rfl))
  have hrun := hrun.snoc (.own (p := 1) rfl (.send rfl))
  have hrun := hrun.snoc (.own (p := 3) rfl (.wake rfl))
  have hrun := hrun.snoc (.own (p := 3) rfl (.drain rfl))
  have hrun := hrun.snoc (.own (p := 3) rfl (.sent rfl))
  have hrun := hrun.snoc (.own (p := 3) rfl (.apply rfl
    (Server.handleDecidedEntries_swap (sampleNodes 3) (w := nextWorld) (L := sampleLogs 0)
      (Replica.shows_uncompacted rfl le_rfl) Nat.two_pos rfl rfl rfl rfl)))
  have hrun := hrun.snoc (arrive (q := 1) (p := 2) (m := ⟨0, .omniPaxosMsg ⟨2, 1⟩⟩) rfl rfl)
  have hrun := hrun.snoc (.own (p := 2) rfl (.wake rfl))
  have hrun := hrun.snoc (.own (p := 2) rfl (.process (w := nextWorld) rfl rfl))
  refine ⟨_, _, hrun, ?_, rfl, _, List.mem_append_right _ List.mem_cons_self, _, _, rfl, rfl, rfl⟩
  simp only [List.nil_append, List.cons_append, List.mem_cons, List.not_mem_nil, or_false,
    forall_eq_or_imp, forall_eq]
  refine ⟨⟨nofun, nofun⟩, ⟨nofun, nofun⟩, ⟨nofun, nofun⟩, ⟨nofun, ?_⟩, ⟨nofun, nofun⟩,
    ⟨nofun, nofun⟩, ⟨nofun, nofun⟩, ⟨?_, nofun⟩, ⟨nofun, nofun⟩, ⟨nofun, nofun⟩, nofun, nofun⟩
  · intro msg he
    cases he
    rfl
  · intro w _ _
    refine ⟨fun q => ?_, fun m hm => by cases hm⟩
    by_cases hq : q = 1
    · subst hq
      rfl
    · by_cases hq' : q = 3
      · subst hq'
        rfl
      · simp [Net.move, hq, hq', sampleStart]

theorem stays_inside_sample : ∃ tr,
    ∃ net : Net Nat (Loop Replica ReplicaMsg) (Envelope ReplicaMsg),
    (Net.machine (cluster sampleNodes)).Run tr net ∧ (net.party 3).conf = 1 ∧
    (∃ t ∈ tr, ∃ w m, t.event.event = .process w m ∧ isProtocol m.body = true ∧ m.conf = 0) ∧
    ∀ t ∈ tr, Inside t := by
  obtain ⟨tr, net, hrun, hquiet, hconf, hprocess⟩ := quiet_run
  exact ⟨tr, net, hrun, hconf, hprocess, stays_inside hrun hquiet⟩

/-- Server 1 passes the StopSign and sends a message of the second configuration to server 2, which
has not. -/
theorem new_message_run : ∃ tr, ∃ net : Net Nat (Loop Replica ReplicaMsg) (Envelope ReplicaMsg),
    (Net.machine (cluster sampleNodes)).Run tr net ∧ (∀ t ∈ tr, t.event.overtakes = 0) ∧
    ∃ t ∈ tr, ∃ w m, t.event.event = .process w m ∧ isProtocol m.body = true ∧ m.conf = 1 ∧
      (t.before.party t.event.party).conf = 0 := by
  have hrun := sample_starts fun p => if p = 1 then 2 else 1
  have hrun := hrun.snoc (.own (p := 1) rfl (.wake rfl))
  have hrun := hrun.snoc (.own (p := 1) rfl (.drain rfl))
  have hrun := hrun.snoc (.own (p := 1) rfl (.sent rfl))
  have hrun := hrun.snoc (.own (p := 1) rfl (.apply rfl
    (Server.handleDecidedEntries_swap (sampleNodes 1) (w := nextWorld) (L := sampleLogs 0)
      (Replica.shows_uncompacted rfl le_rfl) Nat.two_pos rfl rfl rfl rfl)))
  have hrun := hrun.snoc (.own (p := 1) rfl (.tick rfl))
  have hrun := hrun.snoc (.own (p := 1) rfl (.wake rfl))
  have hrun := hrun.snoc (.own (p := 1) rfl (.drain rfl))
  have hrun := hrun.snoc (.own (p := 1) rfl (.send rfl))
  have hrun := hrun.snoc (arrive (q := 1) (p := 2) (m := ⟨1, .omniPaxosMsg ⟨2, 0⟩⟩) rfl rfl)
  have hrun := hrun.snoc (.own (p := 2) rfl (.wake rfl))
  have hrun := hrun.snoc (.own (p := 2) rfl (.process (w := nextWorld) rfl rfl))
  refine ⟨_, _, hrun, ?_, _, List.mem_append_right _ List.mem_cons_self, _, _, rfl, rfl, rfl, rfl⟩
  simp

/-- Messages cross in both directions, on links that keep their order: one of the first configuration
reaches an instance of the second, and one of the second an instance of the first. -/
theorem messages_cross :
    (∃ tr, ∃ net : Net Nat (Loop Replica ReplicaMsg) (Envelope ReplicaMsg),
      (Net.machine (cluster sampleNodes)).Run tr net ∧ (∀ t ∈ tr, t.event.overtakes = 0) ∧
      ∃ t ∈ tr, ∃ w m, t.event.event = .process w m ∧ isProtocol m.body = true ∧ m.conf = 0 ∧
        (t.before.party t.event.party).conf = 1) ∧
    ∃ tr, ∃ net : Net Nat (Loop Replica ReplicaMsg) (Envelope ReplicaMsg),
      (Net.machine (cluster sampleNodes)).Run tr net ∧ (∀ t ∈ tr, t.event.overtakes = 0) ∧
      ∃ t ∈ tr, ∃ w m, t.event.event = .process w m ∧ isProtocol m.body = true ∧ m.conf = 1 ∧
        (t.before.party t.event.party).conf = 0 :=
  ⟨old_message_run, new_message_run⟩

end Routing
end OmniKV
