import OmniKV.Lib.Net
import OmniKV.Transfer

/-!
# Agreement

The databases of several nodes, while state transfers are on their way.

A node that applies a StopSign sends its database to every peer, and a node that receives one
replaces its own by it, whichever configuration it has reached meanwhile and whatever it has applied.
`agreement_iff` says that the members from the first configuration on stay in agreement with the
decided logs exactly as long as every transfer delivered to one of them lists what it already holds.
-/

namespace OmniKV
namespace Agreement

open OmniPaxos (getDecidedIdx)

variable {OP Msg Storage : Type} [OmniPaxos OP Msg Storage]

/-- The state transfers sent in a transition, with their receivers. -/
def catchupsSent (t : Machine.Transition (Node OP Msg) (Event Msg Storage)) :
    List (Nat × List (String × String)) :=
  (t.after.server.network.sent.drop t.before.server.network.sent.length).filterMap fun
    | (pid, .stateCatchup kvList) => some (pid, kvList)
    | _ => none

def catchupTaken : Event Msg Storage → Option (List (String × String))
  | .catchup _ kvList => some kvList
  | _ => none

/-- Nodes with state transfers as messages. The founders start with the first configuration and an
empty database; the others may have done anything before. -/
def cluster (env : Nat → Env) (logs : Nat → ConfigLog) (founders : Finset Nat) :
    Net.Spec Nat (Node OP Msg) (Event Msg Storage) (List (String × String)) where
  machine p :=
    { init n := p ∈ founders → (Node.machine (env p) logs Database.empty : Machine (Node OP Msg)
        (Event Msg Storage)).init n
      step := Node.Step (env p) logs }
  sends := catchupsSent
  takes := catchupTaken

def Agrees (logs : Nat → ConfigLog) (n : Node OP Msg) : Prop :=
  n.server.database = Database.empty.applyCommands (n.appliedCmds logs)

section Transitions

variable (founders : Finset Nat)
  (t : Machine.Transition (Net Nat (Node OP Msg) (List (String × String)))
    (Net.Event Nat (Event Msg Storage)))

def NoCrash : Prop := ∀ sends, t.event.event ≠ .restart sends

/-- No call of a founder jumps over entries. -/
def FoundersJumpNot : Prop :=
  ∀ w, t.event.party ∈ founders → t.event.event = .handle w →
    (t.before.party t.event.party).NoJump

/-- A state transfer delivered to a founder lists what its database holds. -/
def DeliversHeld : Prop :=
  ∀ w kvList, t.event.party ∈ founders → t.event.event = .catchup w kvList →
    (t.before.party t.event.party).server.database.Lists kvList

def FoundersAgree (logs : Nat → ConfigLog) : Prop :=
  ∀ p ∈ founders, Agrees logs (t.after.party p)

end Transitions

/-- A node in step with its log since the first configuration. -/
structure Founding (logs : Nat → ConfigLog) (n : Node OP Msg) : Prop extends Node.Synced logs n where
  boot : n.boot = Database.empty

variable {env : Nat → Env} {logs : Nat → ConfigLog} {founders : Finset Nat}

theorem Founding.agrees {n : Node OP Msg} (h : Founding logs n) : Agrees logs n := by
  rw [Agrees, h.database, h.boot]

theorem Founding.init {p : Nat} {n : Node OP Msg} (h : (Node.machine (env p) logs Database.empty :
    Machine (Node OP Msg) (Event Msg Storage)).init n) : Founding logs n := by
  have hsynced := Node.Synced.init h
  obtain ⟨api, op, _, rfl⟩ := h
  exact ⟨hsynced, rfl⟩

theorem Founding.step {p : Nat} {n n' : Node OP Msg} {e : Event Msg Storage} (h : Founding logs n)
    (hs : Node.Step (env p) logs n e n') (hcrash : ∀ sends, e ≠ .restart sends)
    (hjump : Node.JumpsNot ⟨n, e, n'⟩) (hcatchup : Node.CatchupMatches ⟨n, e, n'⟩) :
    Founding logs n' := by
  refine ⟨h.toSynced.step hs hjump hcatchup, ?_⟩
  cases hs with
  | advance _ _ => exact h.boot
  | get _ => exact h.boot
  | handle _ _ => rw [Node.afterHandle_boot, h.boot]
  | catchup _ => exact h.boot
  | restart _ _ _ _ => exact absurd rfl (hcrash _)

/-- A delivery keeps a node in agreement exactly when it lists what the node holds. -/
theorem Founding.catchup_iff {p : Nat} {n n' : Node OP Msg} {w : World Storage}
    {kvList : List (String × String)} (h : Founding logs n)
    (hs : Node.Step (env p) logs n (.catchup w kvList) n') :
    Agrees logs n' ↔ n.server.database.Lists kvList := by
  cases hs with
  | catchup hs =>
    rw [Server.handleMsg_stateCatchup] at hs
    cases hs
    show Database.handleKv _ _ _ = Database.empty.applyCommands (n.appliedCmds logs) ↔ _
    rw [← h.agrees]
    exact Database.handleKv_eq_iff _ _ _ _

theorem founders_init {net : Net Nat (Node OP Msg) (List (String × String))}
    (h : (Net.machine (cluster env logs founders : Net.Spec Nat (Node OP Msg) (Event Msg Storage)
      _)).init net) : ∀ p ∈ founders, Founding logs (net.party p) := by
  intro p hp
  exact .init (h.1 p hp)

theorem founders_step {net net' : Net Nat (Node OP Msg) (List (String × String))}
    {e : Net.Event Nat (Event Msg Storage)}
    (h : ∀ p ∈ founders, Founding logs (net.party p))
    (hs : (Net.machine (cluster env logs founders)).step net e net')
    (hcrash : NoCrash ⟨net, e, net'⟩) (hjump : FoundersJumpNot founders ⟨net, e, net'⟩)
    (hheld : DeliversHeld founders ⟨net, e, net'⟩) :
    ∀ p ∈ founders, Founding logs (net'.party p) := by
  intro p hp
  by_cases heq : p = e.party
  · subst heq
    exact (h _ hp).step (Net.Step.moves hs) hcrash (fun w he => hjump w hp he)
      fun w kvList he => hheld w kvList hp he
  · rw [Net.Step.stays hs heq]
    exact h p hp

/-- A founder sends what the configurations so far have written. -/
theorem Founding.sends {p : Nat} {n n' : Node OP Msg} {e : Event Msg Storage} (h : Founding logs n)
    (hs : Node.Step (env p) logs n e n') (hcrash : ∀ sends, e ≠ .restart sends)
    (hjump : Node.JumpsNot ⟨n, e, n'⟩) {q : Nat} {kvList : List (String × String)}
    (hsent : (q, kvList) ∈ catchupsSent ⟨n, e, n'⟩) :
    (Database.empty.applyCommands (Node.history logs (n.conf + 1))).getAllKeyValues =
      .ok kvList := by
  have hmem : kvList ∈ Transfer.kvLists
      (n'.server.network.sent.drop n.server.network.sent.length) := by
    obtain ⟨⟨pid, m⟩, hm, heq⟩ := List.mem_filterMap.mp hsent
    refine Transfer.mem_kvLists.mpr ⟨_, hm, ?_⟩
    split at heq
    · rename_i hcatchup
      obtain ⟨rfl, rfl⟩ := Prod.mk.inj hcatchup
      cases heq
      rfl
    · cases heq
  cases hs with
  | advance _ _ => simp [Transfer.kvLists] at hmem
  | get hs =>
    rw [Server.handleMsg_get] at hs
    cases hs
    simp [Transfer.kvLists] at hmem
  | handle hs _ =>
    rw [Node.afterHandle_server] at hmem
    have hexact := (Transfer.handle_kvLists h.toSynced (hjump _ rfl) hs).1 kvList hmem
    rwa [h.boot] at hexact
  | catchup hs =>
    rw [Server.handleMsg_stateCatchup] at hs
    cases hs
    simp [Transfer.kvLists] at hmem
  | restart _ _ _ _ => exact absurd rfl (hcrash _)

/-- The founders in every state before a step of a run, and at its end. -/
theorem founders_run {tr : List (Machine.Transition (Net Nat (Node OP Msg) (List (String × String)))
      (Net.Event Nat (Event Msg Storage)))} {net : Net Nat (Node OP Msg) (List (String × String))}
    (hrun : (Net.machine (cluster env logs founders)).Run tr net) (hcrash : ∀ t ∈ tr, NoCrash t)
    (hjump : ∀ t ∈ tr, FoundersJumpNot founders t) (hheld : ∀ t ∈ tr, DeliversHeld founders t) :
    (∀ p ∈ founders, Founding logs (net.party p)) ∧
      ∀ t ∈ tr, (∀ p ∈ founders, Founding logs (t.before.party p)) ∧
        (Net.machine (cluster env logs founders)).step t.before t.event t.after := by
  have hstep : ∀ (net : Net Nat (Node OP Msg) (List (String × String)))
      (e : Net.Event Nat (Event Msg Storage)) (net' : Net Nat (Node OP Msg) (List (String × String))),
      (∀ p ∈ founders, Founding logs (net.party p)) →
      (Net.machine (cluster env logs founders)).step net e net' →
      NoCrash ⟨net, e, net'⟩ ∧ FoundersJumpNot founders ⟨net, e, net'⟩ ∧
        DeliversHeld founders ⟨net, e, net'⟩ →
      ∀ p ∈ founders, Founding logs (net'.party p) := by
    intro net e net' hI hs hC
    exact founders_step hI hs hC.1 hC.2.1 hC.2.2
  have htr : ∀ t ∈ tr, NoCrash t ∧ FoundersJumpNot founders t ∧ DeliversHeld founders t := by
    intro t ht
    exact ⟨hcrash t ht, hjump t ht, hheld t ht⟩
  exact ⟨hrun.invariant (fun _ => founders_init) hstep htr,
    hrun.of_mem (fun _ => founders_init) hstep htr⟩

/-- The members from the first configuration on agree with the decided logs all along a run without
crashes and jumps if and only if every state transfer delivered to one of them lists what it holds.
They then agree with each other, and each sends what the configurations so far have written. -/
theorem agreement_iff {tr : List (Machine.Transition (Net Nat (Node OP Msg) (List (String × String)))
      (Net.Event Nat (Event Msg Storage)))} {net : Net Nat (Node OP Msg) (List (String × String))}
    (hrun : (Net.machine (cluster env logs founders)).Run tr net) (hcrash : ∀ t ∈ tr, NoCrash t)
    (hjump : ∀ t ∈ tr, FoundersJumpNot founders t) :
    ((∀ t ∈ tr, FoundersAgree founders t logs) ↔ ∀ t ∈ tr, DeliversHeld founders t) ∧
    ((∀ t ∈ tr, DeliversHeld founders t) →
      (∀ p ∈ founders, ∀ q ∈ founders, (net.party p).conf = (net.party q).conf →
        (net.party p).applied.card = (net.party q).applied.card →
        (net.party p).server.database = (net.party q).server.database) ∧
      ∀ t ∈ tr, t.event.party ∈ founders → ∀ q kvList,
        (q, kvList) ∈ catchupsSent
          ⟨t.before.party t.event.party, t.event.event, t.after.party t.event.party⟩ →
        (Database.empty.applyCommands (Node.history logs
          ((t.before.party t.event.party).conf + 1))).getAllKeyValues = .ok kvList) := by
  constructor
  · refine hrun.forall_iff (H := fun t => NoCrash t ∧ FoundersJumpNot founders t)
      (fun _ => founders_init) (fun _ _ _ hI hs hH hC => founders_step hI hs hH.1 hH.2 hC) ?_
      fun t ht => ⟨hcrash t ht, hjump t ht⟩
    intro net e net' hI hs hH
    constructor
    · intro hagree w kvList hp he
      have hmove : Node.Step (env e.party) logs (net.party e.party) e.event (net'.party e.party) :=
        Net.Step.moves hs
      rw [he] at hmove
      exact ((hI _ hp).catchup_iff hmove).mp (hagree _ hp)
    · intro hheld p hp
      exact (founders_step hI hs hH.1 hH.2 hheld p hp).agrees
  · intro hheld
    obtain ⟨hend, hbefore⟩ := founders_run hrun hcrash hjump hheld
    constructor
    · intro p hp q hq hconf hcard
      rw [(hend p hp).agrees, (hend q hq).agrees, Node.appliedCmds, Node.appliedCmds, hconf, hcard]
    · intro t ht hp q kvList hsent
      obtain ⟨hI, hs⟩ := hbefore t ht
      exact (hI _ hp).sends (Net.Step.moves hs) (hcrash t ht) (fun w he => hjump t ht w hp he) hsent

/-- Three nodes whose first configuration has been decided to its end. -/
def sampleStart : Net Nat (Node Replica ReplicaMsg) (List (String × String)) where
  party p :=
    { server := .initial (sampleNodes p) (.error .client) (.opened (sampleLogs 0) 2 (.create []))
        Database.empty
      conf := 0
      applied := ∅
      boot := Database.empty }
  link _ _ := []

/-- Node 1 sends its state at the StopSign; node 2 passes the StopSign and applies a command of the
second configuration, then the state arrives. -/
theorem overtaken_run : ∃ (tr : List (Machine.Transition
      (Net Nat (Node Replica ReplicaMsg) (List (String × String)))
      (Net.Event Nat (Event ReplicaMsg Replica))))
      (net : Net Nat (Node Replica ReplicaMsg) (List (String × String))),
    (Net.machine (cluster sampleNodes sampleLogs {1, 2, 3})).Run tr net ∧
    (∀ t ∈ tr, NoCrash t) ∧ (∀ t ∈ tr, FoundersJumpNot {1, 2, 3} t) ∧
    (∀ t ∈ tr, t.event.overtakes = 0) ∧ tr.getLast?.map (·.after) = some net ∧
    (net.party 2).appliedCmds sampleLogs = [.put ⟨"a", "1"⟩, .put ⟨"a", "2"⟩] ∧
    (net.party 2).server.database.get "a" = some "1" := by
  have hshow₁ := sampleLogs_shows 0 (d := 2) le_rfl
  have hshow₂ : ∀ d, d ≤ 3 → Shows _ (sampleLogs 1) _ := fun d => sampleLogs_shows 1
  have hrun := Machine.Run.nil (M := Net.machine (cluster sampleNodes sampleLogs {1, 2, 3}))
    (s := sampleStart) ⟨fun p _ => ⟨.error .client, _, ⟨_, hshow₁⟩, rfl⟩, fun _ _ => rfl⟩
  have hrun := hrun.snoc (Net.Step.own (p := 1) rfl
    (Node.Step.stopSign (w := sampleWorld (.opened (sampleLogs 1) 0 (.create [])))
      hshow₁ Nat.two_pos rfl rfl rfl rfl
      ⟨_, Replica.shows_uncompacted rfl (Nat.zero_le _)⟩))
  have hrun := hrun.snoc (Net.Step.own (p := 2) rfl
    (Node.Step.stopSign (w := sampleWorld (.opened (sampleLogs 1) 0 (.create [])))
      hshow₁ Nat.two_pos rfl rfl rfl rfl
      ⟨_, Replica.shows_uncompacted rfl (Nat.zero_le _)⟩))
  have hrun := hrun.snoc (Net.Step.own (p := 2) rfl
    (Node.Step.nothing (sampleWorld (.opened (sampleLogs 1) 0 (.create []))) (by decide)))
  have hrun := hrun.snoc (Net.Step.own (p := 2) rfl
    (Node.Step.advance ⟨_, hshow₂ 1 (by decide)⟩ (by decide)))
  have hrun := hrun.snoc (Net.Step.own (p := 2) rfl
    (Node.Step.commands (sampleWorld (.opened (sampleLogs 1) 0 (.create [])))
      (hshow₂ 1 (by decide)) (by decide) (by decide)))
  have hrun := hrun.snoc (Net.Step.first (p := 2) (q := 1) (m := [("a", "1")]) rfl
    (by refine (?_ : _ = [[("a", "1")]]); decide)
    (Node.Step.catchup (w := sampleWorld (.opened (sampleLogs 1) 0 (.create [])))
      (Server.handleMsg_stateCatchup _ _ _ _)))
  refine ⟨_, _, hrun, ?_, ?_, ?_, rfl, by decide, by decide +kernel⟩ <;>
    simp only [List.nil_append, List.cons_append, List.mem_cons, List.not_mem_nil, or_false,
      forall_eq_or_imp, forall_eq]
  · simp [NoCrash]
  · refine ⟨fun _ _ _ => ?_, fun _ _ _ => ?_, fun _ _ _ => ?_, ?_, fun _ _ _ => ?_, ?_⟩
    · exact Or.inr (Or.inl (by decide))
    · exact Or.inr (Or.inl (by decide))
    · exact Or.inl (by decide)
    · simp [FoundersJumpNot]
    · exact Or.inr (Or.inl (by decide))
    · simp [FoundersJumpNot]
  · simp

/-- The late state transfer has undone a decided command that node 2 had applied. -/
theorem catchup_undoes : ∃ (tr : List (Machine.Transition
      (Net Nat (Node Replica ReplicaMsg) (List (String × String)))
      (Net.Event Nat (Event ReplicaMsg Replica))))
      (net : Net Nat (Node Replica ReplicaMsg) (List (String × String))),
    (Net.machine (cluster sampleNodes sampleLogs {1, 2, 3})).Run tr net ∧
    (∀ t ∈ tr, NoCrash t) ∧ (∀ t ∈ tr, t.event.overtakes = 0) ∧
    ¬∀ t ∈ tr, FoundersAgree {1, 2, 3} t sampleLogs := by
  obtain ⟨tr, net, hrun, hcrash, -, hfifo, hlast, hcmds, ha⟩ := overtaken_run
  obtain ⟨t, ht, rfl⟩ := Option.map_eq_some_iff.mp hlast
  refine ⟨tr, _, hrun, hcrash, hfifo, ?_⟩
  intro hall
  have hagrees := hall t (List.mem_of_getLast? ht) 2 (by decide)
  rw [Agrees, hcmds] at hagrees
  rw [hagrees] at ha
  revert ha
  decide

theorem agreement_iff_sample : ∃ (tr : List (Machine.Transition
      (Net Nat (Node Replica ReplicaMsg) (List (String × String)))
      (Net.Event Nat (Event ReplicaMsg Replica))))
      (net : Net Nat (Node Replica ReplicaMsg) (List (String × String))),
    (Net.machine (cluster sampleNodes sampleLogs {1, 2, 3})).Run tr net ∧
    (net.party 2).appliedCmds sampleLogs = [.put ⟨"a", "1"⟩, .put ⟨"a", "2"⟩] ∧
    ((∀ t ∈ tr, FoundersAgree {1, 2, 3} t sampleLogs) ↔ ∀ t ∈ tr, DeliversHeld {1, 2, 3} t) := by
  obtain ⟨tr, net, hrun, hcrash, hjump, -, -, hcmds, -⟩ := overtaken_run
  exact ⟨tr, net, hrun, hcmds, (agreement_iff hrun hcrash hjump).1⟩

end Agreement
end OmniKV
