import OmniKV.Cluster
import OmniKV.Transport

/-!
# Deployment

The event loops over their real network.

`Traffic` and `Cluster` let the nodes exchange messages over links. Here each loop runs on its own and
takes what its peer tasks push: what a node hands to `send` is handed to the connections of its
endpoint, cut off after any byte, goes through the relay of the network actor in pieces of its own, and is
read line by line at the other end. If at each moment there is such a transport between the loops
(`Wires`), the loops run as over links (`deployment_refines`), and so everything holds of them that holds
of a cluster.

A relay that writes a fragment of a message is no such transport: the next message is glued to the
fragment (`Relay.fragment_glued`), and what is read then was never sent. So in `Wires` the relay may be in
any state that it comes to without writing a fragment.
-/

namespace OmniKV
namespace Deployment

open Frames (newline Codec)
open Transport (Wired Delivered)
open Net (sentIn takenIn)

/-! ## Endpoints -/

section Endpoints

variable {Msg : Type} {nodes : Nat → Endpoint Msg} {origin : Nat × ConnId → Nat → (Nat × Nat) × Nat}
  {link : Nat × ConnId → Nat → Nat}

/-- What the task of a peer has pushed, over all its connections. -/
def allPushed (n : Endpoint Msg) (q : Nat) : List (Message Msg) :=
  (List.range ((n.network.task q).number + 1)).flatMap fun k => (n.conn (q, k)).pushed

/-- What the task of `q` pushes is some of what `q` has sent. -/
theorem pushed_subperm (h : Delivered nodes origin link) (q p : Nat) :
    (allPushed (nodes p) q).Subperm ((nodes q).sentTo p) := by
  let conns := (List.range (((nodes p).network.task q).number + 1)).map fun k => (p, (q, k))
  have hnodup : conns.Nodup :=
    (List.nodup_map_iff fun k k' hk => (Prod.mk.inj (Prod.mk.inj hk).2).2).mpr List.nodup_range
  have hsubperm := h.conveys.subperm hnodup (k := (q, p)) fun y hy i hi => by
    obtain ⟨k, -, rfl⟩ := List.mem_map.mp hy
    exact (h.letter _ i hi).1
  rwa [List.flatMap_map] at hsubperm

end Endpoints

/-! ## Loops on their own -/

variable {OP Msg Storage : Type} [OmniPaxos OP Msg Storage] [OPMessage Msg]

/-- What the process has handed to `send` for `p`. -/
def sentTo (l : Loop OP Msg) (p : Nat) : List (Message Msg) :=
  (l.server.network.sent.filter fun x => x.1 = p).map Prod.snd

abbrev Moves (OP Msg Storage : Type) :=
  List (Machine.Transition (Nat → Loop OP Msg) (Net.Arrival Nat (Loop.Event Msg Storage)))

variable {codec : Codec (Message Msg) UInt8} {envs : Nat → Env} {tr : Moves OP Msg Storage}
  {x : Nat → Loop OP Msg}

theorem sentTo_step {env : Env} {l l' : Loop OP Msg} {e : Loop.Event Msg Storage} {p : Nat}
    (hs : Loop.Step env l e l') (hp : p ≠ 0) :
    sentTo l' p = sentTo l p ++
      ((Traffic.sends ⟨l, e, l'⟩).filter fun x => x.1 = p).map Prod.snd := by
  obtain ⟨more, hsent, -⟩ := Traffic.step_sendsOnly hs
  have hpeer : (more.filter fun x => x.1 ≠ 0).filter (fun x => x.1 = p) =
      more.filter fun x => x.1 = p := by
    rw [List.filter_filter]
    refine List.filter_congr fun x _ => ?_
    by_cases hx : x.1 = p <;> simp [hx, hp]
  rw [Traffic.sends, sentTo, sentTo, hsent, List.drop_left, hpeer, List.filter_append,
    List.map_append]

theorem sent_run (hrun : (Net.loose (Traffic.cluster envs)).Run tr x) {q p : Nat} (hp : p ≠ 0) :
    tr.flatMap (sentIn (Traffic.cluster envs) q p) = sentTo (x q) p := by
  induction hrun with
  | @nil x h0 =>
    obtain ⟨api, op, db, restarted, s, hrecover, hx⟩ := h0 q
    rw [hx, sentTo, Server.recover_ok hrecover]
    rfl
  | @snoc tr x x' e _ hs ih =>
    rw [List.flatMap_append, ih, List.flatMap_singleton]
    cases hs with
    | @move r source e l hs =>
      rw [Net.sentIn_move]
      by_cases hq : q = r
      · rw [if_pos hq, hq, Function.update_self]
        exact (sentTo_step hs hp).symm
      · rw [if_neg hq, List.append_nil, Function.update_of_ne hq]

/-- A step that takes a message sends none. -/
theorem sentTo_of_takes {x x' : Nat → Loop OP Msg} {e : Net.Arrival Nat (Loop.Event Msg Storage)}
    (hs : (Net.loose (Traffic.cluster envs)).step x e x') {m : Message Msg}
    (htakes : Traffic.takes e.event = some m) (q p : Nat) : sentTo (x' q) p = sentTo (x q) p := by
  cases hs with
  | @move r source a l hs =>
    obtain ⟨origin, rfl⟩ := Cluster.takes_eq_some htakes
    cases hs
    by_cases hq : q = r
    · rw [hq, Function.update_self]
      rfl
    · rw [Function.update_of_ne hq]

/-- A transport at a moment when the loops have come to `x` and `p` has taken `taken q p` from `q`. The
relay has written no fragment of a message that was cut off (`whole`). The client API is nobody's
peer. -/
structure Wires (codec : Codec (Message Msg) UInt8) (envs : Nat → Env) (mapping : Nat → Option Nat)
    (capacity centralCapacity : Nat) (x : Nat → Loop OP Msg)
    (taken : Nat → Nat → List (Message Msg)) where
  nodes : Nat → Endpoint Msg
  relay : Relay
  history : List (Machine.Transition Relay Relay.Event)
  plug : ConnId → Nat × ConnId
  nodes_run : ∀ a, ∃ tr, (Endpoint.machine (envs a) codec).Run tr (nodes a)
  relay_run : (Relay.machine mapping capacity centralCapacity).Run history relay
  whole : ∀ t ∈ history, Relay.WritesWhole t
  wired : Wired codec mapping plug nodes history relay
  sends : ∀ q p, p ≠ 0 → (nodes q).sentTo p = sentTo (x q) p
  pushes : ∀ q p, taken q p ≠ [] → p ≠ 0 ∧ (taken q p).Subperm (allPushed (nodes p) q)

variable {mapping : Nat → Option Nat} {capacity centralCapacity : Nat}

theorem causal_of_wires (laws : codec.Lawful newline)
    (hrun : (Net.loose (Traffic.cluster envs)).Run tr x)
    (hwires : ∀ ahead t behind, tr = ahead ++ t :: behind →
      Nonempty (Wires codec envs mapping capacity centralCapacity t.after fun q p =>
        (ahead ++ [t]).flatMap (takenIn (Traffic.cluster envs) q p))) :
    Net.Causal (Traffic.cluster envs) tr := by
  intro ahead t behind m heq htakes
  obtain ⟨hbefore, hs⟩ := hrun.split heq
  obtain ⟨w⟩ := hwires _ _ _ heq
  obtain ⟨origin, link, hdelivered⟩ := w.wired.delivered laws w.nodes_run w.relay_run w.whole
  have htaken : (ahead ++ [t]).flatMap
      (takenIn (Traffic.cluster envs) t.event.source t.event.party) =
      ahead.flatMap (takenIn (Traffic.cluster envs) t.event.source t.event.party) ++ [m] := by
    rw [List.flatMap_append, List.flatMap_singleton, takenIn, if_pos ⟨rfl, rfl⟩, htakes]
    rfl
  obtain ⟨hp, hpushed⟩ := w.pushes t.event.source t.event.party (by simp [htaken])
  have hsent := hpushed.trans (pushed_subperm hdelivered _ _)
  rw [htaken, w.sends _ _ hp] at hsent
  rwa [sentTo_of_takes hs htakes, ← sent_run hbefore hp] at hsent

/-- Loops on their own that have at each moment a transport between them, one that writes no fragments,
run as over links. -/
theorem deployment_refines (laws : codec.Lawful newline)
    (hrun : (Net.loose (Traffic.cluster envs)).Run tr x)
    (hwires : ∀ ahead t behind, tr = ahead ++ t :: behind →
      Nonempty (Wires codec envs mapping capacity centralCapacity t.after fun q p =>
        (ahead ++ [t]).flatMap (takenIn (Traffic.cluster envs) q p))) :
    ∃ tr' net, (Net.machine (Traffic.cluster envs)).Run tr' net ∧ net.party = x ∧
      List.Forall₂ (Machine.Answers (fun x net => Net.party net = x) fun e e' =>
        e'.party = e.party ∧ e'.event = e.event) tr tr' := by
  obtain ⟨tr', net, hrun', hparty, -, hanswers⟩ :=
    Net.run_of_loose hrun (causal_of_wires laws hrun hwires)
  exact ⟨tr', net, hrun', hparty, hanswers⟩

/-! ## A heartbeat -/

def sampleBeat : Message ReplicaMsg := .debug "Heartbeat from node 1"

/-- The heartbeat of node 1 has the line that another message has there. -/
def sampleCodec : Codec (Message ReplicaMsg) UInt8 where
  encode m := Peers.sampleCodec.encode (Equiv.swap sampleBeat (.debug "A") m)
  decode line := (Peers.sampleCodec.decode line).map (Equiv.swap sampleBeat (.debug "A"))

theorem sampleCodec_lawful : sampleCodec.Lawful newline where
  sep_notMem m := Peers.sampleCodec_lawful.sep_notMem _
  decode_encode m := by simp [sampleCodec, Peers.sampleCodec_lawful.decode_encode]
  decode_line m := by simp [sampleCodec, Peers.sampleCodec_lawful.decode_line]
  decode_prefix m s hs hne := by
    simp [sampleCodec, Peers.sampleCodec_lawful.decode_prefix _ s hs hne]

theorem sampleBeat_line :
    sampleCodec.lines newline [sampleBeat] = Peers.debugJson ++ [newline] := by
  rw [← Peers.sample_lines]
  simp [Codec.lines, sampleCodec]

/-- The wires once node 1 has sent its heartbeat, whether or not node 2 has taken it. -/
theorem sample_wires {x : Nat → Loop Replica ReplicaMsg}
    {taken : Nat → Nat → List (Message ReplicaMsg)}
    (hsent : ∀ q, (x q).server.network.sent =
      if q = 1 then [(2, sampleBeat), (3, sampleBeat)] else [])
    (htaken : ∀ q p, taken q p = [] ∨ q = 1 ∧ p = 2 ∧ taken q p = [sampleBeat]) :
    Nonempty (Wires sampleCodec sampleNodes Relay.sampleMapping 10000 10000 x taken) := by
  obtain ⟨tr, s, nodes, hrun, hwrites, hnodes, hwired, hpushed, hnumber, hsends, hnone⟩ :=
    Transport.line_wired sampleCodec_lawful sampleBeat_line
  refine ⟨nodes, s, tr, Transport.samplePlug, hnodes, hrun, hwrites, hwired, fun q p _ => ?_,
    fun q p hne => ?_⟩
  · have hsame : (nodes q).sends = (x q).server.network.sent := by
      rw [hsent]
      by_cases hq : q = 1
      · rw [if_pos hq, hq, hsends]
      · rw [if_neg hq, hnone q hq]
    rw [Endpoint.sentTo, hsame, sentTo]
  · rcases htaken q p with h | ⟨rfl, rfl, h⟩
    · exact absurd h hne
    · refine ⟨by decide, ?_⟩
      rw [h, List.singleton_subperm_iff, allPushed, hnumber]
      exact List.mem_flatMap.mpr ⟨1, by simp, by rw [hpushed]; exact List.mem_singleton_self _⟩

/-- The three loops when node 1 has sent its heartbeat. -/
def beaten : Nat → Loop Replica ReplicaMsg :=
  Function.update Traffic.sampleStart.party 1 { Traffic.sampleStart.party 1 with
    server := (Traffic.sampleStart.party 1).server.debugHeartbeat (sampleNodes 1) }

theorem beaten_sent (q : Nat) : (beaten q).server.network.sent =
    if q = 1 then [(2, sampleBeat), (3, sampleBeat)] else [] := by
  by_cases hq : q = 1
  · rw [hq]
    rfl
  · rw [beaten, Function.update_of_ne hq, if_neg hq]
    rfl

/-- Node 1 sends its heartbeat, and the task of node 2 pushes it. -/
theorem beat_run : ∃ (tr : Moves Replica ReplicaMsg Replica) (x : Nat → Loop Replica ReplicaMsg),
    (Net.loose (Traffic.cluster sampleNodes)).Run tr x ∧ (x 2).received = [⟨0, sampleBeat⟩] ∧
    ∀ ahead t behind, tr = ahead ++ t :: behind →
      Nonempty (Wires sampleCodec sampleNodes Relay.sampleMapping 10000 10000 t.after fun q p =>
        (ahead ++ [t]).flatMap (takenIn (Traffic.cluster sampleNodes) q p)) := by
  have hrun := Machine.Run.nil (M := Net.loose (Traffic.cluster sampleNodes))
    (s := Traffic.sampleStart.party) fun _ => ⟨.error .client, _, _, false, _, rfl, rfl⟩
  have hrun := hrun.snoc (.move (p := 1) (q := 1) (.heartbeat rfl))
  have hrun := hrun.snoc (.move (p := 2) (q := 1) (.receive (m := ⟨0, sampleBeat⟩)))
  have hnone : (Traffic.cluster sampleNodes : Net.Spec Nat (Loop Replica ReplicaMsg)
    (Loop.Event ReplicaMsg Replica) _).takes .heartbeat = none := rfl
  refine ⟨_, _, hrun, rfl, fun ahead t behind heq => ?_⟩
  rcases ahead with _ | ⟨a, _ | ⟨b, ahead⟩⟩
  · obtain ⟨rfl, -⟩ := List.cons.inj heq
    exact sample_wires beaten_sent fun q p => Or.inl (by simp [takenIn, hnone])
  · obtain ⟨rfl, htail⟩ := List.cons.inj heq
    obtain ⟨rfl, -⟩ := List.cons.inj htail
    refine sample_wires (fun q => ?_) fun q p => ?_
    · rw [← beaten_sent]
      by_cases hq : q = 2
      · rw [hq]
        rfl
      · exact congrArg (fun l : Loop Replica ReplicaMsg => l.server.network.sent)
          (Function.update_of_ne hq _ _)
    · by_cases h : 1 = q ∧ 2 = p
      · obtain ⟨rfl, rfl⟩ := h
        exact Or.inr ⟨rfl, rfl, rfl⟩
      · exact Or.inl (by simp [takenIn, h, hnone])
  · simp at heq

theorem deployment_refines_sample : ∃ tr' net,
    (Net.machine (Traffic.cluster sampleNodes : Net.Spec Nat (Loop Replica ReplicaMsg)
      (Loop.Event ReplicaMsg Replica) (Message ReplicaMsg))).Run tr' net ∧
    (net.party 2).received = [⟨0, sampleBeat⟩] := by
  obtain ⟨tr, x, hrun, hreceived, hwires⟩ := beat_run
  obtain ⟨tr', net, hrun', hparty, -⟩ := deployment_refines sampleCodec_lawful hrun hwires
  exact ⟨tr', net, hrun', by rw [hparty]; exact hreceived⟩

end Deployment
end OmniKV
