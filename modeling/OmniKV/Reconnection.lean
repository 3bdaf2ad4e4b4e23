import OmniKV.Routing

/-!
# Reconnection

Nodes whose connections to their peers end and are established again. A message arrives over a
connection, or as the request of a client; a message on a link may arrive over a later connection, or
never.

For each peer a node counts the connections it has established, and notes at which of them
`reconnected` was called last. The tasks that connect do not tell the server of a new connection; the
server calls `reconnected` for a `Reconnect` message, and `Unannounced` is that there is none.
-/

namespace OmniKV
namespace Reconnection

open Routing (isProtocol buffered)

variable {OP Msg Storage : Type} [OmniPaxos OP Msg Storage]

/-- Where a received message comes from: the connection with the number `k` to a peer, or a client. -/
inductive Source where
  | peer (q k : Nat)
  | client

/-- A process with its connections, and the sources of the messages it has received and not yet
handled, in the same order. -/
structure Linked (OP Msg : Type) where
  pid : Nat
  loop : Loop OP Msg
  connected : Nat → Bool
  connections : Nat → Nat
  sources : List Source
  announced : Nat → Nat

inductive Event (Msg Storage : Type) where
  | run (e : Loop.Event Msg Storage)
  | arrive (q : Nat) (m : Envelope Msg)
  | request (cmd : KVCommand)
  | connect (q : Nat)
  | disconnect (q : Nat)
  | restart

/-- The peer for which `handleMsg` calls `reconnected`. -/
def reconnects (env : Env) (s : Server OP Msg) : Message Msg → Option Nat
  | .reconnect pid =>
    if (OmniPaxos.getCurrentLeader s.omniPaxos).map Prod.fst ≠ some env.pid then some pid else none
  | _ => none

namespace Linked

def started (env : Env) (l : Loop OP Msg) : Linked OP Msg where
  pid := env.pid
  loop := l
  connected _ := false
  connections _ := 0
  sources := []
  announced _ := 0

def receive (n : Linked OP Msg) (source : Source) (m : Envelope Msg) : Linked OP Msg :=
  { n with
    loop := { n.loop with received := n.loop.received ++ [m] }
    sources := n.sources ++ [source] }

def advance (env : Env) (n : Linked OP Msg) (e : Loop.Event Msg Storage) (l : Loop OP Msg) :
    Linked OP Msg :=
  match e with
  | .process _ m =>
    { n with
      loop := l
      sources := n.sources.tail
      announced :=
        match reconnects env n.loop.server m.body with
        | some q => Function.update n.announced q (n.connections q)
        | none => n.announced }
  | _ => { n with loop := l }

@[simp] theorem advance_loop (env : Env) (n : Linked OP Msg) (e : Loop.Event Msg Storage)
    (l : Loop OP Msg) : (n.advance env e l).loop = l := by
  unfold advance
  split <;> rfl

end Linked

theorem handleMsg_reconnects {env : Env} (w : World Storage) {s : Server OP Msg} {m : Message Msg}
    {q : Nat} (h : reconnects env s m = some q) :
    s.handleMsg env w m = .ok { s with omniPaxos := OmniPaxos.reconnected s.omniPaxos q } := by
  cases m with
  | reconnect pid =>
    obtain ⟨hfollower, heq⟩ := Option.ite_none_right_eq_some.mp h
    cases heq
    simp only [Server.handleMsg, if_pos hfollower]
  | _ => cases h

def NotReconnect (m : Message Msg) : Prop := ∀ pid, m ≠ .reconnect pid

theorem reconnects_eq_none (env : Env) (s : Server OP Msg) {m : Message Msg} (h : NotReconnect m) :
    reconnects env s m = none := by
  cases m with
  | reconnect pid => exact absurd rfl (h pid)
  | _ => rfl

variable [OPMessage Msg]

inductive Step (env : Env) : Linked OP Msg → Event Msg Storage → Linked OP Msg → Prop where
  | run {n : Linked OP Msg} {e : Loop.Event Msg Storage} {l : Loop OP Msg} :
      (∀ m, e ≠ .receive m) → Loop.Step env n.loop e l → Step env n (.run e) (n.advance env e l)
  | arrive {n : Linked OP Msg} {q : Nat} {m : Envelope Msg} : n.connected q = true →
      Step env n (.arrive q m) (n.receive (.peer q (n.connections q)) m)
  | request {n : Linked OP Msg} {cmd : KVCommand} :
      Step env n (.request cmd) (n.receive .client ⟨0, .apiRequest cmd⟩)
  | connect {n : Linked OP Msg} {q : Nat} : q ∈ env.peers → n.connected q = false →
      Step env n (.connect q) { n with
        connected := Function.update n.connected q true
        connections := Function.update n.connections q (n.connections q + 1) }
  | disconnect {n : Linked OP Msg} {q : Nat} : n.connected q = true →
      Step env n (.disconnect q) { n with connected := Function.update n.connected q false }
  | restart {n : Linked OP Msg} {l : Loop OP Msg} :
      (Loop.machine env : Machine _ (Loop.Event Msg Storage)).init l →
      Step env n .restart (.started env l)

def machine (env : Env) : Machine (Linked OP Msg) (Event Msg Storage) where
  init n := ∃ l, (Loop.machine env : Machine _ (Loop.Event Msg Storage)).init l ∧ n = .started env l
  step := Step env

/-- What is handed to `Network::send` in a step of the loop, with its sender. -/
def newlySent (t : Machine.Transition (Linked OP Msg) (Event Msg Storage)) :
    List (Nat × Nat × Envelope Msg) :=
  match t.event with
  | .run _ => (t.after.loop.server.network.sent.drop t.before.loop.server.network.sent.length).map
      fun x => (x.1, t.before.pid, ⟨t.before.loop.conf, x.2⟩)
  | _ => []

def arriving : Event Msg Storage → Option (Nat × Envelope Msg)
  | .arrive q m => some (q, m)
  | _ => none

/-- Nodes with all their messages on the links. -/
def cluster (env : Nat → Env) :
    Net.Spec Nat (Linked OP Msg) (Event Msg Storage) (Nat × Envelope Msg) where
  machine p := machine (env p)
  sends := newlySent
  takes := arriving

section Transitions

variable (t : Machine.Transition (Net Nat (Linked OP Msg) (Nat × Envelope Msg))
  (Net.Event Nat (Event Msg Storage)))

/-- The node that moves, before it does. -/
def mover : Linked OP Msg := t.before.party t.event.party

/-- In the step a protocol message is handled that came over the connection `k` to peer `q`. -/
def Handles (q k : Nat) : Prop :=
  (∃ w m, t.event.event = .run (.process w m) ∧ isProtocol m.body = true) ∧
    (mover t).sources.head? = some (.peer q k)

/-- When a protocol message is handled that came over a connection established again, `reconnected`
has been called since. -/
def AnnouncedFirst : Prop := ∀ q k, Handles t q k → 2 ≤ k → k ≤ (mover t).announced q

/-- No protocol message is handled that came over a connection established again. -/
def FirstConnection : Prop := ∀ q k, Handles t q k → k < 2

/-- The step calls `reconnected`. -/
def CallsReconnected (env : Nat → Env) : Prop :=
  ∃ w m, t.event.event = .run (.process w m) ∧
    (reconnects (env t.event.party) (mover t).loop.server m.body).isSome

end Transitions

/-! ## What a step sends and receives -/

variable {env : Env} {n n' : Linked OP Msg} {e : Event Msg Storage}

/-- A server sends protocol messages, responses, heartbeats and its state. -/
theorem loop_sends {l l' : Loop OP Msg} {e : Loop.Event Msg Storage} (hs : Loop.Step env l e l') :
    Server.Sends NotReconnect l.server l'.server := by
  cases hs with
  | process _ hs => exact Server.handleMsg_sends (by simp [NotReconnect]) hs
  | send _ => exact Server.sends_send _ _ (by simp [NotReconnect])
  | apply _ hs =>
    exact Server.handleDecidedEntries_sends (by simp [NotReconnect]) (by simp [NotReconnect]) hs
  | heartbeat _ => exact Server.sends_sendAll _ _ (by simp [NotReconnect])
  | _ => exact .of_sent_eq rfl

theorem mem_newlySent (hs : Step env n e n') {r : Nat} {x : Nat × Envelope Msg}
    (hx : (r, x) ∈ newlySent ⟨n, e, n'⟩) : NotReconnect x.2.body := by
  cases hs with
  | run _ hs =>
    obtain ⟨more, hsent, hok⟩ := loop_sends hs
    obtain ⟨y, hy, heq⟩ := List.mem_map.mp hx
    obtain ⟨-, rfl⟩ := Prod.mk.inj heq
    rw [Linked.advance_loop, hsent, List.drop_left] at hy
    exact hok y hy
  | _ => cases hx

omit [OmniPaxos OP Msg Storage] [OPMessage Msg] in
theorem mem_buffered_receive {source : Source} {m m' : Envelope Msg}
    (hm : m ∈ buffered (n.receive source m').loop) : m ∈ buffered n.loop ∨ m = m' := by
  simpa [Linked.receive, buffered, or_assoc] using hm

theorem buffered_started {l : Loop OP Msg}
    (h : (Loop.machine env : Machine _ (Loop.Event Msg Storage)).init l) :
    buffered (Linked.started env l).loop = [] := by
  obtain ⟨api, op, db, restarted, s, -, rfl⟩ := h
  rfl

/-- A message received in a step was on a link, or is the request of a client. -/
theorem mem_buffered (hs : Step env n e n') {m : Envelope Msg} (hm : m ∈ buffered n'.loop) :
    m ∈ buffered n.loop ∨ (∃ q, e = .arrive q m) ∨ ∃ cmd, m.body = .apiRequest cmd := by
  cases hs with
  | run hown hs =>
    rw [Linked.advance_loop] at hm
    exact Or.inl ((Routing.mem_buffered hs hm).resolve_right (hown m))
  | arrive _ =>
    rcases mem_buffered_receive hm with hm | rfl
    · exact Or.inl hm
    · exact Or.inr (Or.inl ⟨_, rfl⟩)
  | request =>
    rcases mem_buffered_receive hm with hm | rfl
    · exact Or.inl hm
    · exact Or.inr (Or.inr ⟨_, rfl⟩)
  | connect _ _ => exact Or.inl hm
  | disconnect _ => exact Or.inl hm
  | restart hinit =>
    rw [buffered_started hinit] at hm
    cases hm

omit [OPMessage Msg] in
@[simp] theorem sources_advance (env : Env) (n : Linked OP Msg) (e : Loop.Event Msg Storage)
    (l : Loop OP Msg) : (n.advance env e l).sources =
      match e with
      | .process _ _ => n.sources.tail
      | _ => n.sources := by
  cases e <;> rfl

/-- A step of the loop takes the message it handles from the messages received. -/
theorem buffered_step {env : Env} {l l' : Loop OP Msg} {e : Loop.Event Msg Storage}
    (hs : Loop.Step env l e l') (hown : ∀ m, e ≠ .receive m) :
    buffered l' =
      match e with
      | .process _ _ => (buffered l).tail
      | _ => buffered l := by
  cases hs with
  | receive => exact absurd rfl (hown _)
  | process hphase _ =>
    simp only [buffered, hphase]
    rfl
  | wake hphase | drain hphase | send hphase | sent hphase | apply hphase _ | tick hphase =>
    simp [buffered, Routing.batch, hphase]
  | heartbeat _ => rfl

/-- Each message received has its source. -/
theorem sources_length_step (hs : Step env n e n')
    (h : n.sources.length = (buffered n.loop).length) :
    n'.sources.length = (buffered n'.loop).length := by
  cases hs with
  | run hown hs =>
    rename_i e l
    rw [Linked.advance_loop, buffered_step hs hown, sources_advance]
    cases e with
    | process _ _ => rw [List.length_tail, List.length_tail, h]
    | _ => exact h
  | arrive _ | request =>
    simp only [Linked.receive, buffered, List.length_append, List.length_cons, List.length_nil] at h ⊢
    omega
  | connect _ _ => exact h
  | disconnect _ => exact h
  | restart hinit =>
    rw [buffered_started hinit]
    rfl

/-- A message handled by a node has been received. -/
theorem handled_mem {w : World Storage} {m : Envelope Msg}
    (hs : Step env n (.run (.process w m)) n') : m ∈ buffered n.loop := by
  cases hs with
  | run _ hs =>
    obtain ⟨rest, hphase⟩ := hs.processing
    rw [Routing.buffered, hphase]
    exact List.mem_cons_self

/-! ## Runs -/

/-- No node has a `Reconnect` message or is sent one, and none has called `reconnected`. -/
structure Unannounced (net : Net Nat (Linked OP Msg) (Nat × Envelope Msg)) : Prop where
  linked : ∀ q p, ∀ x ∈ net.link q p, NotReconnect x.2.body
  buffered : ∀ p, ∀ m ∈ buffered (net.party p).loop, NotReconnect m.body
  announced : ∀ p q, (net.party p).announced q = 0

/-- A node that calls `reconnected` for no peer keeps what it has noted. -/
theorem announced_step (hs : Step env n e n') (hbuf : ∀ m ∈ buffered n.loop, NotReconnect m.body)
    (hn : ∀ q, n.announced q = 0) (q : Nat) : n'.announced q = 0 := by
  cases hs with
  | run hown hs =>
    unfold Linked.advance
    split
    · rename_i w m
      have hm := hbuf m (handled_mem (.run hown hs))
      simp only [reconnects_eq_none _ _ hm]
      exact hn q
    · exact hn q
  | restart _ => rfl
  | _ => exact hn q

variable {env : Nat → Env} {net net' : Net Nat (Linked OP Msg) (Nat × Envelope Msg)}

theorem Unannounced.init (h : (Net.machine (cluster env :
    Net.Spec Nat (Linked OP Msg) (Event Msg Storage) _)).init net) : Unannounced net := by
  obtain ⟨hparty, hlink⟩ := h
  refine ⟨?_, ?_, ?_⟩
  · intro q p x hx
    rw [hlink] at hx
    cases hx
  · intro p m hm
    obtain ⟨l, hl, heq⟩ := hparty p
    rw [heq, buffered_started hl] at hm
    cases hm
  · intro p q
    obtain ⟨l, hl, heq⟩ := hparty p
    rw [heq]
    rfl

theorem Unannounced.step {e : Net.Event Nat (Event Msg Storage)} (h : Unannounced net)
    (hs : (Net.machine (cluster env)).step net e net') : Unannounced net' := by
  have hmoves : Step (env e.party) (net.party e.party) e.event (net'.party e.party) :=
    Net.Step.moves hs
  refine ⟨?_, ?_, ?_⟩
  · intro q p x hx
    rcases Net.Step.mem_link hs hx with hx | ⟨-, hx⟩
    · exact h.linked q p x hx
    · exact mem_newlySent hmoves hx
  · intro p m hm
    by_cases hp : p = e.party
    · subst hp
      rcases mem_buffered hmoves hm with hm | ⟨q, he⟩ | ⟨cmd, hcmd⟩
      · exact h.buffered _ m hm
      · obtain ⟨q', hlink⟩ := Net.Step.takes hs (m := (q, m)) (by rw [he]; rfl)
        exact h.linked q' _ _ hlink
      · intro pid
        rw [hcmd]
        exact nofun
    · rw [Net.Step.stays hs hp] at hm
      exact h.buffered p m hm
  · intro p q
    by_cases hp : p = e.party
    · subst hp
      exact announced_step hmoves (h.buffered _) (h.announced _) q
    · rw [Net.Step.stays hs hp]
      exact h.announced p q

variable {tr : List (Machine.Transition (Net Nat (Linked OP Msg) (Nat × Envelope Msg))
  (Net.Event Nat (Event Msg Storage)))}

theorem unannounced_before (hrun : (Net.machine (cluster env)).Run tr net) :
    ∀ t ∈ tr, Unannounced t.before ∧ Net.Step (cluster env) t.before t.event t.after :=
  hrun.of_mem (C := fun _ => True) (fun _ h => Unannounced.init h)
    (fun _ _ _ hI hs _ => Unannounced.step hI hs) fun _ _ => trivial

theorem never_calls_reconnected (hrun : (Net.machine (cluster env)).Run tr net) :
    ∀ t ∈ tr, ¬CallsReconnected t env := by
  rintro t ht ⟨w, m, he, hcall⟩
  obtain ⟨hI, hs⟩ := unannounced_before hrun t ht
  have hmoves : Step (env t.event.party) (mover t) t.event.event (t.after.party t.event.party) :=
    Net.Step.moves hs
  rw [he] at hmoves
  rw [reconnects_eq_none _ _ (hI.buffered _ m (handled_mem hmoves))] at hcall
  cases hcall

/-- In every run, each message a node has received and not yet handled has its source. -/
theorem sources_length (hrun : (Net.machine (cluster env)).Run tr net) (p : Nat) :
    (net.party p).sources.length = (buffered (net.party p).loop).length := by
  refine Net.party_invariant (I := fun _ n => n.sources.length = (buffered n.loop).length) ?_ ?_
    hrun p
  · rintro p n ⟨l, hl, rfl⟩
    rw [buffered_started hl]
    rfl
  · intro p n e n' h hs
    exact sources_length_step hs h

/-- In every run, `reconnected` is called before the protocol messages of a connection established
again are handled exactly when no such message is handled; for no step calls it. -/
theorem announced_first_iff (hrun : (Net.machine (cluster env)).Run tr net) :
    ((∀ t ∈ tr, AnnouncedFirst t) ↔ ∀ t ∈ tr, FirstConnection t) ∧
    ∀ t ∈ tr, ¬CallsReconnected t env := by
  refine ⟨?_, never_calls_reconnected hrun⟩
  refine forall₂_congr fun t ht => ?_
  refine forall₃_congr fun q k _ => ?_
  have hzero : (mover t).announced q = 0 := (unannounced_before hrun t ht).1.announced _ q
  omega

/-! ## Runs of three nodes -/

def sampleStart : Net Nat (Linked Replica ReplicaMsg) (Nat × Envelope ReplicaMsg) where
  party p := .started (sampleNodes p) ((Routing.sampleStart fun _ => 1).party p)
  link _ _ := []

abbrev SampleTransition := Machine.Transition
  (Net Nat (Linked Replica ReplicaMsg) (Nat × Envelope ReplicaMsg))
  (Net.Event Nat (Event ReplicaMsg Replica))

abbrev SampleRun := Machine.Run (Net.machine
  (cluster sampleNodes : Net.Spec Nat (Linked Replica ReplicaMsg) (Event ReplicaMsg Replica) _))

theorem sample_starts : SampleRun [] sampleStart :=
  .nil ⟨fun _ => ⟨_, ⟨.error .client, _, _, false, _, rfl, rfl⟩, rfl⟩, fun _ _ => rfl⟩

theorem firstConnection_of_ne {t : SampleTransition}
    (h : ∀ w m, t.event.event ≠ .run (.process w m)) : FirstConnection t := by
  rintro q k ⟨⟨w, m, he, -⟩, -⟩
  exact absurd he (h w m)

theorem firstConnection_of_source {t : SampleTransition} {q k : Nat}
    (hsource : (mover t).sources.head? = some (.peer q k)) (hk : k < 2) : FirstConnection t := by
  rintro q' k' ⟨-, hsource'⟩
  cases hsource.symm.trans hsource'
  exact hk

/-- Server 2 handles a message that came over its first connection to server 1. -/
theorem first_connection_run : ∃ tr net, SampleRun tr net ∧ (net.party 2).connections 1 = 2 ∧
    (∃ t ∈ tr, Handles t 1 1) ∧ ∀ t ∈ tr, FirstConnection t := by
  have hrun := sample_starts
  have hrun := hrun.snoc (.own (p := 1) rfl (.run (by simp) (.tick rfl)))
  have hrun := hrun.snoc (.own (p := 1) rfl (.run (by simp) (.wake rfl)))
  have hrun := hrun.snoc (.own (p := 1) rfl (.run (by simp) (.drain rfl)))
  have hrun := hrun.snoc (.own (p := 1) rfl (.run (by simp) (.send rfl)))
  have hrun := hrun.snoc (.own (p := 2) rfl (.connect (q := 1) (by decide) rfl))
  have hrun := hrun.snoc (.first (q := 1) (p := 2) (m := (1, ⟨0, .omniPaxosMsg ⟨2, 1⟩⟩)) rfl rfl
    (.arrive rfl))
  have hrun := hrun.snoc (.own (p := 2) rfl (.run (by simp) (.wake rfl)))
  have hrun := hrun.snoc (.own (p := 2) rfl (.run (by simp)
    (.process (w := Routing.nextWorld) rfl rfl)))
  have hrun := hrun.snoc (.own (p := 2) rfl (.disconnect (q := 1) rfl))
  have hrun := hrun.snoc (.own (p := 2) rfl (.connect (q := 1) (by decide) rfl))
  refine ⟨_, _, hrun, rfl, ⟨_, List.mem_of_getElem? (i := 7) rfl, ⟨_, _, rfl, rfl⟩, rfl⟩, ?_⟩
  simp only [List.nil_append, List.cons_append, List.mem_cons, List.not_mem_nil, or_false,
    forall_eq_or_imp, forall_eq]
  refine ⟨?_, ?_, ?_, ?_, ?_, ?_, ?_, ?_, ?_, ?_⟩
  on_goal 8 => exact firstConnection_of_source rfl Nat.one_lt_two
  all_goals exact firstConnection_of_ne (by simp)

theorem announced_first_sample : ∃ tr net, SampleRun tr net ∧ (net.party 2).connections 1 = 2 ∧
    (∃ t ∈ tr, Handles t 1 1) ∧ ∀ t ∈ tr, AnnouncedFirst t := by
  obtain ⟨tr, net, hrun, hconnections, hhandles, hfirst⟩ := first_connection_run
  exact ⟨tr, net, hrun, hconnections, hhandles, (announced_first_iff hrun).1.mpr hfirst⟩

/-- Server 2 loses its connection to server 1 and establishes it again, and then handles a message of
server 1 without having called `reconnected`. -/
theorem reconnection_unannounced : ∃ tr net, SampleRun tr net ∧ (∃ t ∈ tr, Handles t 1 2) ∧
    (∀ t ∈ tr, ¬CallsReconnected t sampleNodes) ∧ ¬∀ t ∈ tr, AnnouncedFirst t := by
  have hrun := sample_starts
  have hrun := hrun.snoc (.own (p := 1) rfl (.run (by simp) (.tick rfl)))
  have hrun := hrun.snoc (.own (p := 1) rfl (.run (by simp) (.wake rfl)))
  have hrun := hrun.snoc (.own (p := 1) rfl (.run (by simp) (.drain rfl)))
  have hrun := hrun.snoc (.own (p := 1) rfl (.run (by simp) (.send rfl)))
  have hrun := hrun.snoc (.own (p := 2) rfl (.connect (q := 1) (by decide) rfl))
  have hrun := hrun.snoc (.own (p := 2) rfl (.disconnect (q := 1) rfl))
  have hrun := hrun.snoc (.own (p := 2) rfl (.connect (q := 1) (by decide) rfl))
  have hrun := hrun.snoc (.first (q := 1) (p := 2) (m := (1, ⟨0, .omniPaxosMsg ⟨2, 1⟩⟩)) rfl rfl
    (.arrive rfl))
  have hrun := hrun.snoc (.own (p := 2) rfl (.run (by simp) (.wake rfl)))
  have hrun := hrun.snoc (.own (p := 2) rfl (.run (by simp)
    (.process (w := Routing.nextWorld) rfl rfl)))
  refine ⟨_, _, hrun, ⟨_, List.mem_of_getElem? (i := 9) rfl, ⟨_, _, rfl, rfl⟩, rfl⟩, ?_, ?_⟩
  · exact never_calls_reconnected hrun
  · intro hall
    have hannounced := hall _ (List.mem_of_getElem? (i := 9) rfl) 1 2 ⟨⟨_, _, rfl, rfl⟩, rfl⟩ le_rfl
    revert hannounced
    decide

end Reconnection
end OmniKV
