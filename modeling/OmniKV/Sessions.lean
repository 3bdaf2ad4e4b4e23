import OmniKV.Agreement
import OmniKV.Integrity
import OmniKV.Lib.Views

/-!
# Sessions

What clients see of several nodes.

A node answers a `Get` from its own database, without asking the others, so an answer can be old. In the
runs in which the founders stay in agreement with the decided logs (`Agreement`), the cluster is a
store of replicas that show beginnings of one sequence, the commands of all configurations. So the
answers can be put in one order with the commands, in which those of each node go forward, across
reconfigurations too (`sequentially_consistent`).
-/

namespace OmniKV
namespace Sessions

open Agreement
open OmniPaxos (getDecidedIdx)

variable {OP Msg Storage : Type} [OmniPaxos OP Msg Storage]

/-- What a client reads in a database that has applied `cmds`. -/
def eval (cmds : List KVCommand) (key : String) : Option String :=
  (Database.empty.applyCommands cmds).get key

def getResponse : Nat × Message Msg → Option (String × Option String)
  | (0, .apiResponse (.get key value)) => some (key, value)
  | _ => none

/-- The `Get` responses sent in a transition. -/
def responses (t : Machine.Transition (Node OP Msg) (Event Msg Storage)) :
    List (String × Option String) :=
  (t.after.server.network.sent.drop t.before.server.network.sent.length).filterMap getResponse

/-! ## What a node shows -/

variable {env : Env} {logs : Nat → ConfigLog} {n n' : Node OP Msg} {e : Event Msg Storage}

theorem history_mono (logs : Nat → ConfigLog) {c c' : Nat} (h : c ≤ c') :
    Node.history logs c <+: Node.history logs c' := by
  induction c', h using Nat.le_induction with
  | base => exact List.prefix_rfl
  | succ c' _ ih => exact ih.trans (List.prefix_append _ _)

theorem appliedCmds_le_history (logs : Nat → ConfigLog) (n : Node OP Msg) :
    n.appliedCmds logs <+: Node.history logs (n.conf + 1) :=
  (List.prefix_append_right_inj _).mpr (List.take_prefix _ _)

/-- Of two nodes, or one node at two times, the one has applied a beginning of what the other has. -/
theorem appliedCmds_chain (logs : Nat → ConfigLog) (n n' : Node OP Msg) :
    n.appliedCmds logs <+: n'.appliedCmds logs ∨ n'.appliedCmds logs <+: n.appliedCmds logs := by
  rcases Nat.lt_trichotomy n.conf n'.conf with hlt | heq | hlt
  · exact Or.inl (((appliedCmds_le_history logs n).trans (history_mono logs hlt)).trans
      (List.prefix_append _ _))
  · rw [Node.appliedCmds, Node.appliedCmds, heq, List.prefix_append_right_inj,
      List.prefix_append_right_inj]
    exact List.prefix_or_prefix_of_prefix (List.take_prefix _ _) (List.take_prefix _ _)
  · exact Or.inr (((appliedCmds_le_history logs n').trans (history_mono logs hlt)).trans
      (List.prefix_append _ _))

/-- A call of `handle_decided_entries` takes nothing back. -/
theorem handle_grows (h : Node.Prefixed logs n) (hjump : n.NoJump) {w : World Storage}
    {s' : Server OP Msg} (hs : n.server.handleDecidedEntries env w = .ok s') :
    n.appliedCmds logs <+: (n.afterHandle s').appliedCmds logs := by
  obtain ⟨t, hshow⟩ := h.runs
  rcases Node.afterHandle_cases hshow hs with ⟨_, heq⟩ | ⟨hlt, _, _, heq⟩ | ⟨_, _, _, _, heq⟩
  · rw [heq]
    exact List.prefix_rfl
  · rw [heq]
    have hle : n.applied.card ≤ n.covered.card := by
      rw [(h.covered hshow hjump hlt).2, Finset.card_range]
      exact h.applied_le
    exact (List.prefix_append_right_inj _).mpr (List.take_prefix_take_left hle)
  · rw [heq]
    exact (appliedCmds_le_history logs n).trans (List.prefix_append _ _)

theorem handle_responses {s s' : Server OP Msg} {w : World Storage}
    (hs : s.handleDecidedEntries env w = .ok s') :
    (s'.network.sent.drop s.network.sent.length).filterMap getResponse = [] := by
  have hsends : Server.Sends (fun m => ∀ key value, m ≠ .apiResponse (.get key value)) s s' :=
    Server.handleDecidedEntries_sends (by simp) (by simp) hs
  obtain ⟨more, hsent, hok⟩ := hsends
  rw [hsent, List.drop_left]
  refine List.filterMap_eq_nil_iff.mpr fun ⟨r, m⟩ hm => ?_
  unfold getResponse
  split
  · rename_i key value heq
    cases heq
    exact absurd rfl (hok _ hm key value)
  · rfl

/-- A step of a founder is a read, answered from what the founder shows, or it sends no answer and takes
nothing back. -/
theorem founding_step {p : Nat} {env : Nat → Env} (h : Founding logs n)
    (hs : Node.Step (env p) logs n e n') (hcrash : ∀ sends, e ≠ .restart sends)
    (hjump : Node.JumpsNot ⟨n, e, n'⟩) :
    (∃ key, n'.appliedCmds logs = n.appliedCmds logs ∧
      responses ⟨n, e, n'⟩ = [(key, eval (n.appliedCmds logs) key)]) ∨
    n.appliedCmds logs <+: n'.appliedCmds logs ∧ responses ⟨n, e, n'⟩ = [] := by
  cases hs with
  | advance _ _ => exact Or.inr ⟨List.prefix_rfl, by simp [responses]⟩
  | @get _ key _ hs =>
    rw [Server.handleMsg_get] at hs
    cases hs
    refine Or.inl ⟨key, rfl, ?_⟩
    rw [eval, ← h.agrees]
    simp [responses, getResponse]
  | handle hs _ =>
    refine Or.inr ⟨handle_grows h.toPrefixed (hjump _ rfl) hs, ?_⟩
    rw [responses, Node.afterHandle_server]
    exact handle_responses hs
  | catchup hs =>
    rw [Server.handleMsg_stateCatchup] at hs
    cases hs
    exact Or.inr ⟨List.prefix_rfl, by simp [responses]⟩
  | restart _ _ _ _ => exact absurd rfl (hcrash _)

/-! ## What the founders show -/

/-- The cluster as a store of replicas. -/
def shown (founders : Finset Nat) (logs : Nat → ConfigLog)
    (net : Net Nat (Node OP Msg) (List (String × String))) :
    Views {p // p ∈ founders} KVCommand where
  view p := (net.party p).appliedCmds logs
  chain p q := appliedCmds_chain logs (net.party p) (net.party q)

/-- The answers that founders send in a transition. -/
def answersOf (founders : Finset Nat)
    (t : Machine.Transition (Net Nat (Node OP Msg) (List (String × String)))
      (Net.Event Nat (Event Msg Storage))) :
    List (Views.Answer {p // p ∈ founders} String (Option String)) :=
  if h : t.event.party ∈ founders then
    (responses ⟨t.before.party t.event.party, t.event.event, t.after.party t.event.party⟩).map
      fun x => ⟨⟨t.event.party, h⟩, x.1, x.2⟩
  else []

section Runs

variable {env : Nat → Env} {founders : Finset Nat}
  {net net' : Net Nat (Node OP Msg) (List (String × String))}
  {tr : List (Machine.Transition (Net Nat (Node OP Msg) (List (String × String)))
    (Net.Event Nat (Event Msg Storage)))}

/-- A step of the cluster is one of the store, or changes nothing of it. -/
theorem shown_step {e : Net.Event Nat (Event Msg Storage)}
    (h : ∀ p ∈ founders, Founding logs (net.party p))
    (hs : (Net.machine (cluster env logs founders)).step net e net')
    (hcrash : NoCrash ⟨net, e, net'⟩) (hjump : FoundersJumpNot founders ⟨net, e, net'⟩) :
    (shown founders logs net' = shown founders logs net ∧ answersOf founders ⟨net, e, net'⟩ = []) ∨
    ∃ a, (Views.machine {p // p ∈ founders} eval).step (shown founders logs net) a
        (shown founders logs net') ∧
      answersOf founders ⟨net, e, net'⟩ =
        (Views.answerOf ⟨shown founders logs net, a, shown founders logs net'⟩).toList := by
  have hstays : ∀ q : {p // p ∈ founders}, q.1 ≠ e.party →
      (shown founders logs net').view q = (shown founders logs net).view q := fun q hq => by
    show (net'.party q).appliedCmds logs = (net.party q).appliedCmds logs
    rw [Net.Step.stays hs hq]
  by_cases hp : e.party ∈ founders
  · rcases founding_step (h _ hp) (Net.Step.moves hs) hcrash (fun w he => hjump w hp he) with
      ⟨key, hsame, hanswer⟩ | ⟨hgrow, hnone⟩
    · have hshown : shown founders logs net' = shown founders logs net := by
        refine Views.eq_of_view fun q => ?_
        by_cases hq : q.1 = e.party
        · show (net'.party q).appliedCmds logs = (net.party q).appliedCmds logs
          rw [hq]
          exact hsame
        · exact hstays q hq
      have hread : Views.Step eval (shown founders logs net) (.read ⟨⟨e.party, hp⟩, key,
          eval ((net.party e.party).appliedCmds logs) key⟩) (shown founders logs net') := by
        rw [hshown]
        exact .read (⟨e.party, hp⟩ : {p // p ∈ founders}) key
      refine Or.inr ⟨_, hread, ?_⟩
      simp [answersOf, hp, hanswer, Views.answerOf]
    · refine Or.inr ⟨.grow ⟨e.party, hp⟩,
        .grow hgrow fun q hq => hstays q fun heq => hq (Subtype.ext heq), ?_⟩
      simp [answersOf, hp, hnone, Views.answerOf]
  · refine Or.inl ⟨Views.eq_of_view fun q => hstays q fun heq => hp (heq ▸ q.2), ?_⟩
    simp [answersOf, hp]

/-- Every run of the cluster is one of the store, with the same answers. -/
theorem refines_views (hrun : (Net.machine (cluster env logs founders)).Run tr net)
    (hcrash : ∀ t ∈ tr, NoCrash t) (hjump : ∀ t ∈ tr, FoundersJumpNot founders t)
    (hheld : ∀ t ∈ tr, DeliversHeld founders t) :
    ∃ atr, (Views.machine {p // p ∈ founders} eval).Run atr (shown founders logs net) ∧
      Views.answers atr = tr.flatMap (answersOf founders) := by
  induction hrun with
  | nil h =>
    refine ⟨[], .nil fun p => ?_, rfl⟩
    obtain ⟨api, op, -, hp⟩ := h.1 p p.2
    show Node.appliedCmds logs _ = []
    rw [hp]
    rfl
  | snoc hrun hs ih =>
    simp only [List.mem_append, List.mem_singleton, or_imp, forall_and, forall_eq] at hcrash hjump hheld
    obtain ⟨atr, harun, hanswers⟩ := ih hcrash.1 hjump.1 hheld.1
    have hfounding := (founders_run hrun hcrash.1 hjump.1 hheld.1).1
    rw [List.flatMap_append, List.flatMap_singleton]
    rcases shown_step hfounding hs hcrash.2 hjump.2 with ⟨hshown, hnone⟩ | ⟨a, hstep, hanswer⟩
    · rw [hshown, hnone, List.append_nil]
      exact ⟨atr, harun, hanswers⟩
    · refine ⟨_, harun.snoc hstep, ?_⟩
      rw [Views.answers_snoc, hanswers, hanswer]

/-- As long as the founders stay in agreement with the decided logs, there is one order of the commands,
a beginning of the decided logs, in which all their answers are serial: each is taken at a place of it,
and those of one node at places further and further on. -/
theorem sequentially_consistent (hrun : (Net.machine (cluster env logs founders)).Run tr net)
    (hcrash : ∀ t ∈ tr, NoCrash t) (hjump : ∀ t ∈ tr, FoundersJumpNot founders t)
    (hheld : ∀ t ∈ tr, DeliversHeld founders t) : ∃ atr order place,
    ((Views.machine {p // p ∈ founders} eval).Run atr (shown founders logs net) ∧
      Views.answers atr = tr.flatMap (answersOf founders)) ∧
    (∃ c, order <+: Node.history logs c) ∧ (∀ p ∈ founders, (net.party p).appliedCmds logs <+: order) ∧
    Views.Serial eval order (tr.flatMap (answersOf founders)) place := by
  obtain ⟨atr, harun, hanswers⟩ := refines_views hrun hcrash hjump hheld
  obtain ⟨order, place, hall, horder, hserial⟩ := Views.serial_of_run harun
  refine ⟨atr, order, place, ⟨harun, hanswers⟩, ?_, fun p hp => hall ⟨p, hp⟩, hanswers ▸ hserial⟩
  rcases horder with rfl | ⟨q, rfl⟩
  · exact ⟨0, List.prefix_rfl⟩
  · exact ⟨_, appliedCmds_le_history logs (net.party q)⟩

end Runs

/-- Node 2 answers, node 1 passes the StopSign and answers, then node 2 answers again. -/
theorem answering_run : ∃ (tr : List (Machine.Transition
      (Net Nat (Node Replica ReplicaMsg) (List (String × String)))
      (Net.Event Nat (Event ReplicaMsg Replica))))
      (net : Net Nat (Node Replica ReplicaMsg) (List (String × String))),
    (Net.machine (cluster sampleNodes sampleLogs {1, 2, 3})).Run tr net ∧
    (∀ t ∈ tr, NoCrash t) ∧ (∀ t ∈ tr, FoundersJumpNot {1, 2, 3} t) ∧
    (∀ t ∈ tr, DeliversHeld {1, 2, 3} t) ∧
    (tr.flatMap (answersOf {1, 2, 3})).map (fun a => (a.replica.1, a.value)) =
      [(2, none), (1, some "1"), (2, none)] := by
  have hshow := sampleLogs_shows 0 (d := 2) le_rfl
  let w : World Replica := sampleWorld (.opened (sampleLogs 1) 0 (.create []))
  have hrun := Machine.Run.nil (M := Net.machine (cluster sampleNodes sampleLogs {1, 2, 3}))
    (s := sampleStart) ⟨fun p _ => ⟨.error .client, _, ⟨_, hshow⟩, rfl⟩, fun _ _ => rfl⟩
  have hrun := hrun.snoc (Net.Step.own (p := 2) rfl (Node.Step.answer w "a"))
  have hrun := hrun.snoc (Net.Step.own (p := 1) rfl
    (Node.Step.stopSign (w := w) hshow Nat.two_pos rfl rfl rfl rfl
      ⟨_, Replica.shows_uncompacted rfl (Nat.zero_le _)⟩))
  have hrun := hrun.snoc (Net.Step.own (p := 1) rfl (Node.Step.answer w "a"))
  have hrun := hrun.snoc (Net.Step.own (p := 2) rfl (Node.Step.answer w "a"))
  refine ⟨_, _, hrun, ?_, ?_, ?_, ?_⟩
  · simp [NoCrash]
  · simp only [List.nil_append, List.cons_append, List.mem_cons, List.not_mem_nil, or_false,
      forall_eq_or_imp, forall_eq]
    refine ⟨?_, fun _ _ _ => Or.inr (Or.inl (by decide)), ?_, ?_⟩ <;> simp [FoundersJumpNot]
  · simp [DeliversHeld]
  · decide +kernel

theorem sequentially_consistent_sample : ∃ (answers : List
      (Views.Answer {p // p ∈ ({1, 2, 3} : Finset Nat)} String (Option String)))
      (order : List KVCommand) (place : Nat → Nat),
    answers.map (fun a => (a.replica.1, a.value)) = [(2, none), (1, some "1"), (2, none)] ∧
    (∃ c, order <+: Node.history sampleLogs c) ∧ Views.Serial eval order answers place := by
  obtain ⟨tr, net, hrun, hcrash, hjump, hheld, hanswers⟩ := answering_run
  obtain ⟨-, order, place, -, horder, -, hserial⟩ :=
    sequentially_consistent hrun hcrash hjump hheld
  exact ⟨_, order, place, hanswers, horder, hserial⟩

end Sessions
end OmniKV
