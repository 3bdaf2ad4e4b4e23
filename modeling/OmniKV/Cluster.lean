import Mathlib.Data.List.Perm.Subperm
import OmniKV.Integrity
import OmniKV.Refinement
import OmniKV.Traffic

/-!
# Cluster

A cluster of event loops refines a cluster of nodes.

There, a message of any kind goes from its link into the buffer of its receiver and is handled some time
later; here, a state transfer stays on its link until it is handled, and nothing else is on its way.
`ComingTo` compares the two: the transfers on the links to a process and in its buffer, each counted
with its sender, are on the links to its node.

* `Refines.step` — a step of the loops is one of the nodes, in any net of nodes (`Hosts`).
* `cluster_refines` — every run of the loops is answered, event for event, by a run of the nodes.
-/

namespace OmniKV
namespace Cluster

open Refinement (Outlines Keeps label)
open Routing (batch buffered)
open Agreement (catchupTaken catchupsSent)
open OmniPaxos (getDecidedIdx)

variable {OP Msg Storage : Type} [OmniPaxos OP Msg Storage]

/-! ## Transfers on their way -/

/-- The state transfers among messages. -/
def transfers (ms : List (Message Msg)) : List (List (String × String)) :=
  ms.filterMap fun
    | .stateCatchup kvList => some kvList
    | _ => none

theorem transfers_append (ms more : List (Message Msg)) :
    transfers (ms ++ more) = transfers ms ++ transfers more := List.filterMap_append

/-- Those a process has received and not yet handled. -/
def waiting (l : Loop OP Msg) : List (List (String × String)) :=
  transfers ((buffered l).map Envelope.body)

/-- The transfers on the links `links` and those that are `waiting` come, each from its sender, over the
links `nodeLinks`. -/
def ComingTo (links : Nat → List (Message Msg)) (nodeLinks : Nat → List (List (String × String)))
    (waiting : List (List (String × String))) : Prop :=
  ∃ senders : List (Nat × List (String × String)), senders.map Prod.snd = waiting ∧
    ∀ q, (transfers (links q) ++ (senders.filter fun x => x.1 = q).map Prod.snd).Subperm (nodeLinks q)

variable {links more : Nat → List (Message Msg)}
  {nodeLinks nodeMore : Nat → List (List (String × String))}
  {w : List (List (String × String))} {kvList : List (String × String)}

theorem ComingTo.send (h : ComingTo links nodeLinks w)
    (hmore : ∀ q, (transfers (more q)).Subperm (nodeMore q)) :
    ComingTo (fun q => links q ++ more q) (fun q => nodeLinks q ++ nodeMore q) w := by
  obtain ⟨senders, hsenders, hlinks⟩ := h
  refine ⟨senders, hsenders, fun q => ?_⟩
  have hperm : (transfers (links q ++ more q) ++ (senders.filter fun x => x.1 = q).map Prod.snd).Perm
      ((transfers (links q) ++ (senders.filter fun x => x.1 = q).map Prod.snd) ++
        transfers (more q)) := by
    rw [transfers_append, List.append_assoc, List.append_assoc]
    exact List.Perm.append_left _ List.perm_append_comm
  exact hperm.subperm.trans ((hlinks q).append (hmore q))

/-- A message goes from its link into the buffer. -/
theorem ComingTo.receive (h : ComingTo links nodeLinks w) {q : Nat} {m : Message Msg}
    {ahead behind : List (Message Msg)} (hlink : links q = ahead ++ m :: behind) :
    ComingTo (Function.update links q (ahead ++ behind)) nodeLinks (w ++ transfers [m]) := by
  obtain ⟨senders, rfl, hlinks⟩ := h
  refine ⟨senders ++ (transfers [m]).map (Prod.mk q), by simp [Function.comp_def], fun r => ?_⟩
  rw [List.filter_append, List.map_append]
  by_cases hr : r = q
  · subst hr
    have hnew : (((transfers [m]).map (Prod.mk r)).filter fun x => x.1 = r).map Prod.snd =
        transfers [m] := by
      rw [List.filter_eq_self.mpr (by simp), List.map_map]
      exact List.map_id _
    have hold : transfers (links r) = transfers ahead ++ (transfers [m] ++ transfers behind) := by
      rw [hlink, ← transfers_append, ← transfers_append, List.singleton_append]
    rw [Function.update_self, hnew, transfers_append, List.append_assoc, ← List.append_assoc _ _
      (transfers [m])]
    refine List.Perm.subperm_right ?_ |>.mp (hlinks r)
    rw [hold, List.append_assoc, List.append_assoc]
    exact List.Perm.append_left _ List.perm_append_comm
  · have hnone : ((transfers [m]).map (Prod.mk q)).filter (fun x => x.1 = r) = [] := by
      simp [Ne.symm hr]
    rw [Function.update_of_ne hr, hnone, List.map_nil, List.append_nil]
    exact hlinks r

/-- A transfer that is handled is taken off its link. -/
theorem ComingTo.take (h : ComingTo links nodeLinks (kvList :: w)) :
    ∃ q ahead behind, nodeLinks q = ahead ++ kvList :: behind ∧
      ComingTo links (Function.update nodeLinks q (ahead ++ behind)) w := by
  obtain ⟨senders, hsenders, hlinks⟩ := h
  obtain ⟨⟨q, _⟩, senders, rfl, rfl, rfl⟩ := List.map_eq_cons_iff.mp hsenders
  have hq := hlinks q
  rw [List.filter_cons_of_pos (by simp), List.map_cons] at hq
  obtain ⟨ahead, behind, hlink⟩ := List.append_of_mem (hq.subset (List.mem_append_right _ List.mem_cons_self))
  refine ⟨q, ahead, behind, hlink, senders, rfl, fun r => ?_⟩
  by_cases hr : r = q
  · subst hr
    rw [hlink] at hq
    have hcons := List.perm_middle.symm.subperm.trans (hq.trans List.perm_middle.subperm)
    rw [Function.update_self]
    exact (List.subperm_cons _).mp hcons
  · have hr' := hlinks r
    rw [List.filter_cons_of_neg (by simpa using Ne.symm hr)] at hr'
    rwa [Function.update_of_ne hr]

/-- What a process loses of its buffer stays on the links to its node. -/
theorem ComingTo.forget (h : ComingTo links nodeLinks w) : ComingTo links nodeLinks [] := by
  obtain ⟨senders, -, hlinks⟩ := h
  refine ⟨[], rfl, fun q => ?_⟩
  rw [List.filter_nil, List.map_nil, List.append_nil]
  exact (List.sublist_append_left _ _).subperm.trans (hlinks q)

/-! ## Events -/

variable {env : Env} {logs : Nat → ConfigLog} {l l' : Loop OP Msg} {n n' : Node OP Msg}
  {e : Loop.Event Msg Storage}

theorem label_ne_restart (e : Loop.Event Msg Storage) (sends : List (Nat × Message Msg)) :
    label e ≠ .restart sends := by
  intro h
  unfold label at h
  split at h
  · split at h <;> cases h
  · cases h
  · cases h

/-- A process handles a transfer, or its node takes none. -/
theorem label_cases (e : Loop.Event Msg Storage) :
    (∃ w origin kvList, e = .process w ⟨origin, .stateCatchup kvList⟩) ∨
      catchupTaken (label e) = none ∧ ∀ w m, e = .process w m → transfers [m.body] = [] := by
  cases e with
  | process w m =>
    obtain ⟨origin, body⟩ := m
    cases body with
    | stateCatchup kvList => exact Or.inl ⟨w, origin, kvList, rfl⟩
    | apiRequest cmd =>
      refine Or.inr ⟨by cases cmd <;> rfl, fun w m he => ?_⟩
      cases he
      rfl
    | _ =>
      refine Or.inr ⟨rfl, fun w m he => ?_⟩
      cases he
      rfl
  | _ => exact Or.inr ⟨rfl, by simp⟩

theorem takes_eq_some {e : Loop.Event Msg Storage} {m : Message Msg}
    (h : Traffic.takes e = some m) : ∃ origin, e = .receive ⟨origin, m⟩ := by
  cases e with
  | receive m =>
    obtain ⟨origin, body⟩ := m
    cases body with
    | apiRequest cmd => cases h
    | _ =>
      cases h
      exact ⟨origin, rfl⟩
  | _ => cases h

theorem transfers_of_takes {e : Loop.Event Msg Storage} (h : Traffic.takes e = none)
    {m : Envelope Msg} (he : e = .receive m) : transfers [m.body] = [] := by
  subst he
  obtain ⟨origin, body⟩ := m
  cases body with
  | apiRequest cmd => rfl
  | _ => cases h

theorem catchups_dataMsgs (more : List (Nat × Message Msg)) :
    Integrity.catchups (dataMsgs more) = Integrity.catchups more := by
  induction more with
  | nil => rfl
  | cons x more ih =>
    obtain ⟨r, m⟩ := x
    cases m with
    | stateCatchup kvList => exact congrArg (List.cons (r, kvList)) ih
    | _ => exact ih

theorem transfers_to (more : List (Nat × Message Msg)) (q : Nat) :
    ((Integrity.catchups more).filter fun x => x.1 = q).map Prod.snd =
      transfers ((more.filter fun x => x.1 = q).map Prod.snd) := by
  induction more with
  | nil => rfl
  | cons x more ih =>
    obtain ⟨r, m⟩ := x
    cases m with
    | stateCatchup kvList =>
      have hnode : Integrity.catchups ((r, .stateCatchup kvList) :: more) =
          (r, kvList) :: Integrity.catchups more := rfl
      rw [hnode]
      by_cases hq : r = q
      · rw [List.filter_cons_of_pos (by simpa using hq), List.filter_cons_of_pos (by simpa using hq)]
        exact congrArg (List.cons kvList) ih
      · rw [List.filter_cons_of_neg (by simpa using hq), List.filter_cons_of_neg (by simpa using hq)]
        exact ih
    | _ =>
      by_cases hq : r = q
      · rw [List.filter_cons_of_pos (by simpa using hq)]
        exact ih
      · rw [List.filter_cons_of_neg (by simpa using hq)]
        exact ih

/-- Messages to clients are no transfers between processes. -/
theorem transfers_sublist (more : List (Nat × Message Msg)) (q : Nat) :
    (transfers (((more.filter fun x => x.1 ≠ 0).filter fun x => x.1 = q).map Prod.snd)).Sublist
      (((Integrity.catchups more).filter fun x => x.1 = q).map Prod.snd) := by
  rw [transfers_to]
  exact ((List.filter_sublist.filter _).map Prod.snd).filterMap _

/-! ## Processes and nodes -/

/-- A net in which nodes take the steps of `Node.Step`, as events `wrap e`. -/
structure Hosts {ε : Type} (T : Net.Spec Nat (Node OP Msg) ε (List (String × String)))
    (wrap : Event Msg Storage → ε) (envs : Nat → Env) (logs : Nat → ConfigLog) : Prop where
  step : ∀ p n e n', Node.Step (envs p) logs n e n' → (T.machine p).step n (wrap e) n'
  takes : ∀ e, T.takes (wrap e) = catchupTaken e
  sends : ∀ n e n', (∀ sends, e ≠ .restart sends) →
    T.sends ⟨n, wrap e, n'⟩ = catchupsSent ⟨n, e, n'⟩

variable {ε : Type} {T : Net.Spec Nat (Node OP Msg) ε (List (String × String))}
  {wrap : Event Msg Storage → ε} {envs : Nat → Env} {net net' : Net Nat (Loop OP Msg) (Message Msg)}
  {nodes nodes' : Net Nat (Node OP Msg) (List (String × String))}

structure Refines (net : Net Nat (Loop OP Msg) (Message Msg))
    (nodes : Net Nat (Node OP Msg) (List (String × String))) : Prop where
  party : ∀ p, Outlines (net.party p) (nodes.party p)
  coming : ∀ p, ComingTo (fun q => net.link q p) (fun q => nodes.link q p) (waiting (net.party p))

/-- The transfers to `p` come to where `p` moves, and those to the others as before. -/
theorem coming_update {p : Nat}
    (hp : ComingTo (fun q => net.link q p) (fun q => nodes.link q p) (waiting l'))
    (hothers : ∀ r, r ≠ p →
      ComingTo (fun q => net.link q r) (fun q => nodes.link q r) (waiting (net.party r))) :
    ∀ r, ComingTo (fun q => net.link q r) (fun q => nodes.link q r)
      (waiting (Function.update net.party p l' r)) := by
  intro r
  by_cases hr : r = p
  · rw [hr, Function.update_self]
    exact hp
  · rw [Function.update_of_ne hr]
    exact hothers r hr

/-- The transfer that waits first is on a link to the node, and the others without it. -/
theorem Refines.taken (h : Refines net nodes) {p : Nat}
    (hwaiting : waiting (net.party p) = kvList :: w) :
    ∃ q ahead behind, nodes.link q p = ahead ++ kvList :: behind ∧
      ComingTo (fun q' => net.link q' p)
        (fun q' => (nodes.setLink q p (ahead ++ behind)).link q' p) w ∧
      ∀ r, r ≠ p → ComingTo (fun q' => net.link q' r)
        (fun q' => (nodes.setLink q p (ahead ++ behind)).link q' r) (waiting (net.party r)) := by
  have hcoming := h.coming p
  rw [hwaiting] at hcoming
  obtain ⟨q, ahead, behind, hlink, hrest⟩ := hcoming.take
  refine ⟨q, ahead, behind, hlink, ?_, fun r hr => ?_⟩
  · rw [Net.setLink_link_self]
    exact hrest
  · simp only [Net.setLink_link_of_ne _ hr]
    exact h.coming r

theorem Refines.move (net : Net Nat (Loop OP Msg) (Message Msg))
    (nodes : Net Nat (Node OP Msg) (List (String × String))) {p : Nat} {out : List (Nat × Message Msg)}
    {nodeOut : List (Nat × List (String × String))}
    (hparty : ∀ r, Outlines (net.party r) (nodes.party r)) (hp : Outlines l' n')
    (hcoming : ∀ r, ComingTo (fun q => net.link q r) (fun q => nodes.link q r)
      (waiting (Function.update net.party p l' r)))
    (hout : ∀ r, (transfers ((out.filter fun x => x.1 = r).map Prod.snd)).Sublist
      ((nodeOut.filter fun x => x.1 = r).map Prod.snd)) :
    Refines (net.move p l' out) (nodes.move p n' nodeOut) := by
  constructor
  · intro r
    by_cases hr : r = p
    · rw [hr, Net.move_party_self, Net.move_party_self]
      exact hp
    · rw [Net.move_party_of_ne _ hr, Net.move_party_of_ne _ hr]
      exact hparty r
  · intro r
    simp only [Net.move_link]
    refine (hcoming r).send fun q => ?_
    split
    · exact (hout r).subperm
    · exact List.nil_subperm

theorem mem_link_of_waiting (h : Refines net nodes) {p : Nat} {kvList : List (String × String)}
    (hmem : kvList ∈ waiting (net.party p)) : ∃ q, kvList ∈ nodes.link q p := by
  obtain ⟨senders, hsenders, hlinks⟩ := h.coming p
  rw [← hsenders] at hmem
  obtain ⟨⟨q, _⟩, hq, rfl⟩ := List.mem_map.mp hmem
  refine ⟨q, (hlinks q).subset (List.mem_append_right _ ?_)⟩
  exact List.mem_map_of_mem (List.mem_filter.mpr ⟨hq, by simp⟩)

theorem mem_link_of_transfers (h : Refines net nodes) {q p : Nat}
    {kvList : List (String × String)} (hmem : kvList ∈ transfers (net.link q p)) :
    kvList ∈ nodes.link q p := by
  obtain ⟨senders, -, hlinks⟩ := h.coming p
  exact (hlinks q).subset (List.mem_append_left _ hmem)

/-! ## Steps -/

variable [OPMessage Msg]

/-- A transfer waits from when it is received until it is handled. -/
theorem waiting_step (hs : Loop.Step env l e l') :
    (∃ m, e = .receive m ∧ waiting l' = waiting l ++ transfers [m.body]) ∨
      (∃ w m, e = .process w m ∧ waiting l = transfers [m.body] ++ waiting l') ∨
      (∀ w m, e ≠ .process w m) ∧ (∀ m, e ≠ .receive m) ∧ waiting l' = waiting l := by
  cases hs with
  | @receive m =>
    refine Or.inl ⟨m, rfl, ?_⟩
    rw [waiting, waiting, ← transfers_append, buffered, ← List.append_assoc, List.map_append]
    rfl
  | @process w m rest s hphase _ =>
    refine Or.inr (Or.inl ⟨w, m, rfl, ?_⟩)
    rw [waiting, waiting, ← transfers_append, buffered, hphase]
    rfl
  | wake hphase | drain hphase | send hphase | sent hphase | apply hphase _ | tick hphase =>
    exact Or.inr (Or.inr ⟨by simp, by simp, by simp [waiting, buffered, batch, hphase]⟩)
  | heartbeat _ => exact Or.inr (Or.inr ⟨by simp, by simp, rfl⟩)

/-- What a process sends its node sends as well. -/
theorem transfers_sends (hs : Loop.Step env l e l') (h : Outlines l n) (h' : Outlines l' n')
    (a : Event Msg Storage) (q : Nat) :
    (transfers (((Traffic.sends ⟨l, e, l'⟩).filter fun x => x.1 = q).map Prod.snd)).Sublist
      (((catchupsSent ⟨n, a, n'⟩).filter fun x => x.1 = q).map Prod.snd) := by
  obtain ⟨more, hsent, -⟩ := Traffic.step_sendsOnly hs
  obtain ⟨count, timeot, hserver⟩ := h.server
  obtain ⟨count', timeot', hserver'⟩ := h'.server
  have hloop : Traffic.sends ⟨l, e, l'⟩ = more.filter fun x => x.1 ≠ 0 := by
    rw [Traffic.sends, hsent, List.drop_left]
  have hnode : catchupsSent ⟨n, a, n'⟩ = Integrity.catchups more := by
    rw [catchupsSent, hserver, hserver', Server.outline_sent, Server.outline_sent, hsent,
      dataMsgs_append, List.drop_left]
    exact catchups_dataMsgs more
  rw [hloop, hnode]
  exact transfers_sublist more q

/-- A step in which no transfer is handled is one of the node that takes no message. -/
theorem Refines.own (net : Net Nat (Loop OP Msg) (Message Msg)) (hosts : Hosts T wrap envs logs)
    {p : Nat}
    (hparty : ∀ r, Outlines (net.party r) (nodes.party r))
    (hs : Loop.Step (envs p) (net.party p) e l') (hkeeps : Keeps logs ⟨net.party p, e, l'⟩)
    (htaken : catchupTaken (label e) = none)
    (hcoming : ∀ r, ComingTo (fun q => net.link q r) (fun q => nodes.link q r)
      (waiting (Function.update net.party p l' r))) :
    ∃ e' nodes', (Net.machine T).step nodes e' nodes' ∧
      (e'.party = p ∧ e'.event = wrap (label e)) ∧
      Refines (net.move p l' (Traffic.sends ⟨net.party p, e, l'⟩)) nodes' := by
  obtain ⟨n', hn', hp⟩ := (hparty p).step hs hkeeps
  refine ⟨_, _, .own ((hosts.takes _).trans htaken) (hosts.step _ _ _ _ hn'), ⟨rfl, rfl⟩, ?_⟩
  rw [hosts.sends _ _ _ (label_ne_restart e)]
  exact .move net nodes hparty hp hcoming (transfers_sends hs (hparty p) hp (label e))

/-- A transfer is handled: the node takes it off its link. -/
theorem Refines.take (hosts : Hosts T wrap envs logs) (h : Refines net nodes) {p : Nat}
    {world : World Storage} {origin : Nat} (hs : Loop.Step (envs p) (net.party p)
      (.process world ⟨origin, .stateCatchup kvList⟩) l')
    (hkeeps : Keeps logs ⟨net.party p, .process world ⟨origin, .stateCatchup kvList⟩, l'⟩)
    (hwaiting : waiting (net.party p) = kvList :: waiting l') :
    ∃ e' nodes', (Net.machine T).step nodes e' nodes' ∧
      (e'.party = p ∧ e'.event = wrap (.catchup world kvList)) ∧
      Refines (net.move p l' (Traffic.sends ⟨net.party p,
        (.process world ⟨origin, .stateCatchup kvList⟩ : Loop.Event Msg Storage), l'⟩)) nodes' := by
  obtain ⟨n', hn', hp⟩ := (h.party p).step hs hkeeps
  obtain ⟨q, ahead, behind, hlink, hrest, hothers⟩ := h.taken hwaiting
  refine ⟨_, _, .deliver (hosts.takes _) hlink (hosts.step _ _ _ _ hn'), ⟨rfl, rfl⟩, ?_⟩
  rw [hosts.sends _ _ _ (label_ne_restart _)]
  exact .move net (nodes.setLink q p (ahead ++ behind)) h.party hp (coming_update hrest hothers)
    (transfers_sends hs (h.party p) hp _)

/-- Each step of the cluster is one of the nodes. -/
theorem Refines.step (hosts : Hosts T wrap envs logs) (h : Refines net nodes)
    {e : Net.Event Nat (Loop.Event Msg Storage)}
    (hs : (Net.machine (Traffic.cluster envs)).step net e net')
    (hkeeps : Keeps logs ⟨net.party e.party, e.event, net'.party e.party⟩) :
    ∃ e' nodes', (Net.machine T).step nodes e' nodes' ∧
      (e'.party = e.party ∧ e'.event = wrap (label e.event)) ∧ Refines net' nodes' := by
  cases hs with
  | @own p e l' htakes hs =>
    rw [Net.move_party_self] at hkeeps
    rcases label_cases e with ⟨world, origin, kvList, rfl⟩ | ⟨htaken, hnone⟩
    · rcases waiting_step hs with ⟨m, he, -⟩ | ⟨world', m, he, hwaiting⟩ | ⟨hprocess, -, -⟩
      · cases he
      · cases he
        exact h.take hosts hs hkeeps hwaiting
      · exact absurd rfl (hprocess _ _)
    · have hown : Traffic.takes e = none := htakes
      have hwaiting : waiting l' = waiting (net.party p) := by
        rcases waiting_step hs with ⟨m, rfl, hwaiting⟩ | ⟨world, m, rfl, hwaiting⟩ | ⟨-, -, hsame⟩
        · rw [hwaiting, transfers_of_takes hown rfl, List.append_nil]
        · rw [hwaiting, hnone _ _ rfl, List.nil_append]
        · exact hsame
      refine Refines.own net hosts h.party hs hkeeps htaken (coming_update ?_ fun r _ => h.coming r)
      rw [hwaiting]
      exact h.coming p
  | @deliver p q e l' m ahead behind htakes hlink hs =>
    rw [Net.move_party_self] at hkeeps
    obtain ⟨origin, rfl⟩ := takes_eq_some htakes
    have hwaiting : waiting l' = waiting (net.party p) ++ transfers [m] := by
      rcases waiting_step hs with ⟨m, he, hwaiting⟩ | ⟨_, _, he, -⟩ | ⟨-, hreceive, -⟩
      · cases he
        exact hwaiting
      · cases he
      · exact absurd rfl (hreceive _)
    refine Refines.own (net.setLink q p (ahead ++ behind)) hosts h.party hs hkeeps rfl
      (coming_update ?_ fun r hr => ?_)
    · rw [Net.setLink_link_self, hwaiting]
      exact (h.coming p).receive hlink
    · simp only [Net.setLink_link_of_ne _ hr]
      exact h.coming r

/-! ## Runs -/

variable {tr : List (Machine.Transition (Net Nat (Loop OP Msg) (Message Msg))
  (Net.Event Nat (Loop.Event Msg Storage)))}

/-- What the consensus library promises about a step of the cluster. -/
def KeepsAll (logs : Nat → ConfigLog) (t : Machine.Transition (Net Nat (Loop OP Msg) (Message Msg))
    (Net.Event Nat (Loop.Event Msg Storage))) : Prop :=
  Keeps logs ⟨t.before.party t.event.party, t.event.event, t.after.party t.event.party⟩

theorem waiting_init
    (h : (Loop.machine env : Machine (Loop OP Msg) (Loop.Event Msg Storage)).init l) :
    waiting l = [] := by
  obtain ⟨api, op, db, restarted, s, -, rfl⟩ := h
  rfl

theorem refines_init (h : ∀ p, (Loop.machine (envs p) : Machine (Loop OP Msg)
      (Loop.Event Msg Storage)).init (net.party p)) (hlinks : ∀ q p, net.link q p = [])
    (hruns : ∀ p, Runs (net.party p).server.omniPaxos (logs 0)) :
    ∃ nodes : Net Nat (Node OP Msg) (List (String × String)),
      (∀ p, (Node.machine (envs p) logs (net.party p).server.database : Machine (Node OP Msg)
        (Event Msg Storage)).init (nodes.party p)) ∧
      (∀ q p, nodes.link q p = []) ∧ Refines net nodes := by
  choose n hinit hparty using fun p => Refinement.outlines_init (h p) (hruns p)
  refine ⟨⟨n, fun _ _ => []⟩, hinit, fun _ _ => rfl, hparty, fun p => ⟨[], ?_, fun q => ?_⟩⟩
  · rw [waiting_init (h p)]
    rfl
  · show (transfers (net.link q p) ++ []).Subperm []
    rw [hlinks q p]
    exact List.nil_subperm

/-- In every run of the event loops whose instances keep to their logs, with messages delayed and
overtaken at will: the nodes have a run that answers it event for event, and the transfers on their way
or waiting in a buffer are on their way to the nodes. -/
theorem cluster_refines (founders : Finset Nat)
    (hrun : (Net.machine (Traffic.cluster envs)).Run tr net) (hkeeps : ∀ t ∈ tr, KeepsAll logs t)
    (hruns : ∀ p, Runs ((Machine.start tr net).party p).server.omniPaxos (logs 0))
    (hempty : ∀ p ∈ founders,
      ((Machine.start tr net).party p).server.database = Database.empty) :
    ∃ (tr' : List (Machine.Transition (Net Nat (Node OP Msg) (List (String × String)))
        (Net.Event Nat (Event Msg Storage)))) (nodes : Net Nat (Node OP Msg) (List (String × String))),
      (Net.machine (Agreement.cluster envs logs founders)).Run tr' nodes ∧ Refines net nodes ∧
      List.Forall₂ (Machine.Answers Refines fun e e' => e'.party = e.party ∧
        e'.event = label e.event) tr tr' := by
  obtain ⟨nodes₀, hinit, hlinks, hstart⟩ := refines_init hrun.start_init.1 hrun.start_init.2
    hruns
  have hosts : Hosts (Agreement.cluster envs logs founders : Net.Spec Nat (Node OP Msg)
      (Event Msg Storage) _) id envs logs := ⟨fun _ _ _ _ h => h, fun _ => rfl, fun _ _ _ _ => rfl⟩
  refine hrun.lockstep (fun _ _ _ _ hR hs hC => hR.step hosts hs hC) ⟨fun p hp => ?_, hlinks⟩ hstart
    hkeeps
  have hp' := hinit p
  rwa [hempty p hp] at hp'

/-! ## A transfer -/

/-- Three servers whose first configuration has been decided to its end. -/
def sampleStart : Net Nat (Loop Replica ReplicaMsg) (Message ReplicaMsg) where
  party p :=
    { server := .initial (sampleNodes p) (.error .client) (.opened (sampleLogs 0) 2 (.create []))
        Database.empty
      phase := .select
      received := []
      conf := 0 }
  link _ _ := []

def nextWorld : World Replica := sampleWorld (.opened (sampleLogs 1) 0 (.create []))

/-- Server 1 applies the StopSign and sends its state, and server 2 handles it. -/
theorem transfer_run : ∃ tr, ∃ net : Net Nat (Loop Replica ReplicaMsg) (Message ReplicaMsg),
    (Net.machine (Traffic.cluster sampleNodes)).KeptRun (KeepsAll sampleLogs) tr net ∧
    (∀ p, Runs ((Machine.start tr net).party p).server.omniPaxos (sampleLogs 0)) ∧
    (∀ p, ((Machine.start tr net).party p).server.database = Database.empty) ∧
    (net.party 2).conf = 0 ∧ (net.party 2).server.lastDecidedIdx = 0 ∧
    (net.party 2).server.database.get "a" = some "1" := by
  have hshow := sampleLogs_shows 0 (d := 2) le_rfl
  have hshow' := sampleLogs_shows 1 (d := 0) (Nat.zero_le _)
  have hrun : (Net.machine (Traffic.cluster sampleNodes)).KeptRun (KeepsAll sampleLogs) []
    sampleStart := ⟨Machine.Run.nil (M := Net.machine (Traffic.cluster sampleNodes))
    ⟨fun _ => ⟨.error .client, _, _, false, _, rfl, rfl⟩, fun _ _ => rfl⟩, by simp⟩
  have hrun := hrun.snoc (.own (p := 1) rfl (.wake rfl)) ⟨⟨_, hshow⟩, fun _ => le_rfl⟩
  have hrun := hrun.snoc (.own (p := 1) rfl (.drain rfl)) ⟨⟨_, hshow⟩, fun _ => le_rfl⟩
  have hrun := hrun.snoc (.own (p := 1) rfl (.sent rfl)) ⟨⟨_, hshow⟩, fun _ => le_rfl⟩
  have hrun := hrun.snoc (.own (p := 1) rfl (.apply rfl (Server.handleDecidedEntries_swap
    (sampleNodes 1) (w := nextWorld) (L := sampleLogs 0) hshow Nat.two_pos rfl rfl rfl rfl)))
    ⟨⟨_, hshow'⟩, fun hconf => by cases hconf⟩
  have hrun := hrun.snoc (Traffic.arrive (q := 1) (p := 2)
    (m := ⟨0, .stateCatchup [("a", "1")]⟩) (by simp)
    (by refine (?_ : _ = [Message.stateCatchup [("a", "1")]]); decide +kernel))
    (by exact ⟨⟨_, hshow⟩, fun _ => le_rfl⟩)
  have hrun := hrun.snoc (.own (p := 2) rfl (.wake rfl)) ⟨⟨_, hshow⟩, fun _ => le_rfl⟩
  have hrun := hrun.snoc (.own (p := 2) rfl (.process (w := nextWorld) rfl rfl))
    ⟨⟨_, hshow⟩, fun _ => le_rfl⟩
  exact ⟨_, _, hrun, fun _ => ⟨_, sampleLogs_shows 0 le_rfl⟩, fun _ => rfl, rfl, rfl,
    by decide +kernel⟩

theorem cluster_refines_sample : ∃ (tr' : List (Machine.Transition
      (Net Nat (Node Replica ReplicaMsg) (List (String × String)))
      (Net.Event Nat (Event ReplicaMsg Replica))))
      (nodes : Net Nat (Node Replica ReplicaMsg) (List (String × String))),
    (Net.machine (Agreement.cluster sampleNodes sampleLogs {1, 2, 3})).Run tr' nodes ∧
    (nodes.party 2).conf = 0 ∧ (nodes.party 2).server.database.get "a" = some "1" := by
  obtain ⟨tr, net, hrun, hruns, hempty, hconf, -, hget⟩ := transfer_run
  obtain ⟨tr', nodes, hrun', hR, -⟩ :=
    cluster_refines {1, 2, 3} hrun.run hrun.keeps hruns fun p _ => hempty p
  obtain ⟨⟨count, timeot, hserver⟩, hparty⟩ := hR.party 2
  refine ⟨tr', nodes, hrun', hparty.trans hconf, ?_⟩
  rw [hserver]
  exact hget

end Cluster
end OmniKV
