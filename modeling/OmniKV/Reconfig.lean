import OmniKV.Node
import OmniKV.Replica

/-!
# Reconfig

What a StopSign does to `last_decided_idx`.

`update_database` opens the next instance and sets the index to 0, but the call of
`handle_decided_entries` it belongs to then asks the next instance whether it is reconfigured. Only
an instance found with a decided StopSign of its own is; otherwise the call ends by setting the index
to the decided index of the instance that has just been replaced. The entries of the next
configuration below that index are lost when the next instance passes it before the next call.

`skips_iff` says in which runs the index counts the applied entries and in which runs no entry is
jumped over.
-/

namespace OmniKV
namespace Reconfig

open OmniPaxos (getDecidedIdx isReconfigured)

variable {OP Msg Storage : Type} [OmniPaxos OP Msg Storage]

/-- Should the call read a StopSign, the instance found in the storage of the next configuration has
decided its own StopSign. -/
def OpensEnded (env : Env) (w : World Storage) (s : Server OP Msg) : Prop :=
  ∀ stopsign, .stopSign stopsign true ∈ s.entriesRead → ∀ (storage : Storage) (op : OP),
    w.openStorage (Server.storagePath env ((s.currentConfigId + 1) % 2 ^ 64)) = some storage →
    OmniPaxos.buildForServer stopsign.nextConfig s.currentConfig storage = some op →
    (isReconfigured op).isSome

section Transitions

variable (t : Machine.Transition (Node OP Msg) (Event Msg Storage))

/-- When `handle_decided_entries` returns, its index is the number of applied entries. -/
def Counts : Prop :=
  ∀ w, t.event = .handle w → t.after.server.lastDecidedIdx = t.after.applied.card

/-- `handle_decided_entries` applies what is decided and not yet applied. -/
def CatchesUp : Prop :=
  ∀ w, t.event = .handle w →
    t.before.covered = Finset.range (getDecidedIdx t.before.server.omniPaxos)

/-- Once `handle_decided_entries` has applied what it reads, every entry before an applied one is
applied too. -/
def SkipsNone : Prop :=
  ∀ w, t.event = .handle w → ∀ i ∈ t.before.covered, ∀ j < i, j ∈ t.before.covered

def Ended (env : Env) : Prop := ∀ w, t.event = .handle w → OpensEnded env w t.before.server

end Transitions

variable {env : Env} {logs : Nat → ConfigLog} {n n' : Node OP Msg}

/-- What a call that reads the StopSign leaves in the index. -/
theorem finishDecided_lastDecidedIdx (s : Server OP Msg) (d : Nat) :
    (s.finishDecided d).lastDecidedIdx =
      if (isReconfigured s.omniPaxos).isSome then s.lastDecidedIdx else d := by
  unfold Server.finishDecided
  cases isReconfigured s.omniPaxos <;> rfl

/-! ## Jumps -/

/-- A call skips no entry exactly when it does not jump. -/
theorem skipsNone_iff (h : Node.Prefixed logs n) :
    (∀ i ∈ n.covered, ∀ j < i, j ∈ n.covered) ↔ n.NoJump := by
  obtain ⟨t, hshow⟩ := h.runs
  by_cases hlt : n.server.readIdx < getDecidedIdx n.server.omniPaxos
  · constructor
    · intro hnone
      by_contra hjump
      have hread := Server.readIdx_of_lt hlt
      obtain ⟨-, hcard, hsnap⟩ := not_or.mp hjump |>.imp_right not_or.mp
      have hstart : ConfigLog.start t n.server.readIdx = n.server.readIdx := by
        unfold ConfigLog.start
        rw [if_neg fun hc => hsnap ((Server.readsSnapshot_iff hshow hlt).mpr hc)]
      have hmem : ∀ i, i ∈ n.covered ↔ i < n.applied.card ∨
          n.server.readIdx ≤ i ∧ i < getDecidedIdx n.server.omniPaxos := by
        intro i
        rw [Node.covered, Server.covers_entriesRead hshow hlt, hstart, h.applied]
        simp
      -- the first entry not applied lies before the entries read
      have hgap := hnone n.server.readIdx ((hmem _).mpr (Or.inr ⟨le_rfl, hlt⟩)) n.applied.card
        (by omega)
      rcases (hmem _).mp hgap with hgap | hgap <;> omega
    · intro hjump
      rw [(h.covered hshow hjump hlt).2]
      intro i hi j hj
      simp only [Finset.mem_range] at hi ⊢
      omega
  · have hle := Nat.le_of_not_lt hlt
    constructor
    · intro _
      rcases n.server.readIdx_cases with hread | ⟨hread, hz⟩
      · exact Or.inl (by omega)
      · exact Or.inl (by omega)
    · intro _
      rw [Node.covered_nothing hle, h.applied]
      intro i hi j hj
      simp only [Finset.mem_range] at hi ⊢
      omega

/-! ## The index -/

structure Counted (logs : Nat → ConfigLog) (n : Node OP Msg) : Prop extends Node.Prefixed logs n where
  last : n.server.lastDecidedIdx = n.applied.card

theorem Counted.noJump (h : Counted logs n) : n.NoJump := Or.inr (Or.inl h.last.le)

/-- The index counts the applied entries after a call exactly when the call opens no instance that
still runs. -/
theorem Counted.counts_iff (h : Counted logs n) {w : World Storage} {s' : Server OP Msg}
    (hs : n.server.handleDecidedEntries env w = .ok s') :
    (n.afterHandle s').server.lastDecidedIdx = (n.afterHandle s').applied.card ↔
      OpensEnded env w n.server := by
  obtain ⟨t, hshow⟩ := h.runs
  have hlast := h.last
  have hle := h.applied_le
  cases Server.handleDecidedEntries_cases hshow hs with
  | nothing hread =>
    have hidx : n.server.readIdx = n.applied.card := by
      rcases n.server.readIdx_cases with hr | ⟨hr, hz⟩ <;> omega
    have hended : OpensEnded env w n.server := by
      intro stopsign hmem
      rw [Server.entriesRead_nothing hread] at hmem
      cases hmem
    rw [Node.afterHandle, Server.readsStop_nothing hread, Node.covered_nothing hread]
    exact iff_of_true hidx hended
  | commands hlt hd =>
    have hstop := Server.readsStop_commands hshow hlt hd
    have hended : OpensEnded env w n.server := by
      intro stopsign hmem
      have hany := Server.readsStop_iff.mpr ⟨stopsign, hmem⟩
      rw [hstop] at hany
      cases hany
    rw [Node.afterHandle, hstop, (h.covered hshow h.noJump hlt).2]
    exact iff_of_true (Finset.card_range _).symm hended
  | stopSign hlt hss hd hstorage hbuild =>
    rename_i stopsign storage op
    have hmem := Server.stopSign_mem_entriesRead hshow hlt hss hd
    rw [Node.afterHandle, Server.readsStop_stopSign hshow hlt hss hd]
    simp only [if_true, finishDecided_lastDecidedIdx, Finset.card_empty]
    constructor
    · intro hzero stopsign' hmem' storage' op' hstorage' hbuild'
      obtain rfl : stopsign' = stopsign := by
        have hss' := (Server.stop_of_mem_entriesRead hshow hmem').2.1
        rw [hss] at hss'
        exact (Option.some.inj hss').symm
      obtain rfl : storage = storage' := Option.some.inj (hstorage.symm.trans hstorage')
      obtain rfl : op = op' := Option.some.inj (hbuild.symm.trans hbuild')
      split at hzero
      · rename_i hended
        exact hended
      · omega
    · intro hended
      rw [if_pos (hended stopsign hmem storage op hstorage hbuild)]

theorem Counted.init {B : Database} (h : (Node.machine env logs B : Machine (Node OP Msg)
    (Event Msg Storage)).init n) : Counted logs n := by
  have hsynced := Node.Synced.init h
  obtain ⟨api, op, _, rfl⟩ := h
  exact ⟨hsynced.toPrefixed, rfl⟩

theorem Counted.step {e : Event Msg Storage} (h : Counted logs n)
    (hs : Node.Step env logs n e n') (hended : Ended ⟨n, e, n'⟩ env) : Counted logs n' := by
  have hpre := h.toPrefixed.step hs fun _ _ => h.noJump
  cases hs with
  | advance _ _ => exact ⟨hpre, h.last⟩
  | get hs =>
    rw [Server.handleMsg_get] at hs
    cases hs
    exact ⟨hpre, h.last⟩
  | handle hs _ => exact ⟨hpre, (h.counts_iff hs).mpr (hended _ rfl)⟩
  | catchup hs =>
    rw [Server.handleMsg_stateCatchup] at hs
    cases hs
    exact ⟨hpre, h.last⟩
  | restart _ hrecover _ _ =>
    refine ⟨hpre, ?_⟩
    rw [Server.recover_ok hrecover]
    rfl

theorem Counted.covered (h : Counted logs n) :
    n.covered = Finset.range (getDecidedIdx n.server.omniPaxos) := by
  obtain ⟨t, hshow⟩ := h.runs
  by_cases hlt : n.server.readIdx < getDecidedIdx n.server.omniPaxos
  · exact (h.toPrefixed.covered hshow h.noJump hlt).2
  · have hlast := h.last
    have hle := h.applied_le
    rw [Node.covered_nothing (Nat.le_of_not_lt hlt), h.applied]
    congr 1
    rcases n.server.readIdx_cases with hread | ⟨hread, hz⟩ <;> omega

/-- In which runs of a node the index counts the applied entries and every call catches up, and in
which runs no entry is skipped, so that the database is what the entries make of the disk. -/
theorem skips_iff {B : Database} {tr : List (Machine.Transition (Node OP Msg) (Event Msg Storage))}
    (hrun : (Node.machine env logs B).Run tr n) :
    ((∀ t ∈ tr, Counts t ∧ CatchesUp t) ↔ ∀ t ∈ tr, Ended t env) ∧
      ((∀ t ∈ tr, SkipsNone t) ↔ ∀ t ∈ tr, Node.JumpsNot t) ∧
      ((∀ t ∈ tr, SkipsNone t ∧ Node.CatchupMatches t) →
        n.server.database = n.boot.applyCommands (n.appliedCmds logs)) := by
  have hskips : (∀ t ∈ tr, SkipsNone t) ↔ ∀ t ∈ tr, Node.JumpsNot t := by
    refine hrun.forall_iff (H := fun _ => True) (I := Node.Prefixed logs)
      (fun _ h => (Node.Synced.init h).toPrefixed) (fun _ _ _ hI hs _ hC => hI.step hs hC) ?_
      fun _ _ => trivial
    intro n e n' hI hs _
    exact forall_congr' fun w => imp_congr_right fun _ => skipsNone_iff hI
  refine ⟨?_, hskips, ?_⟩
  · refine hrun.forall_iff (H := fun _ => True) (I := Counted logs) (fun _ => Counted.init)
      (fun _ _ _ hI hs _ hC => hI.step hs hC) ?_ fun _ _ => trivial
    intro n e n' hI hs _
    constructor
    · intro hcounts w he
      cases hs with
      | handle hs _ =>
        cases he
        exact (hI.counts_iff hs).mp (hcounts.1 _ rfl)
      | _ => cases he
    · intro hended
      exact ⟨fun w _ => (hI.step hs hended).last, fun w _ => hI.covered⟩
  · intro h
    have hjumps := hskips.mp fun t ht => (h t ht).1
    have hsynced := Node.Synced.run hrun fun t ht => ⟨hjumps t ht, (h t ht).2⟩
    exact hsynced.database

/-- A fresh instance is opened at the StopSign and decides three commands before the next call. -/
theorem skipping_run : ∃ (tr : List (Machine.Transition (Node Replica ReplicaMsg)
      (Event ReplicaMsg Replica))) (n : Node Replica ReplicaMsg),
    (Node.machine sampleEnv sampleLogs Database.empty).Run tr n ∧ tr.getLast?.map (·.after) = some n ∧
    (∃ w, tr.getLast?.map (·.event) = some (.handle w)) ∧
    n.conf = 1 ∧ n.server.lastDecidedIdx = 3 ∧ n.applied = {2} ∧
    n.server.database.get "a" = some "1" ∧ n.server.database.get "b" = none := by
  have hshow₁ := sampleLogs_shows 0 (d := 2) le_rfl
  have hshow₂ : ∀ d, d ≤ 3 → Shows _ (sampleLogs 1) _ := fun d => sampleLogs_shows 1
  have hrun := Machine.Run.nil (M := Node.machine sampleEnv sampleLogs Database.empty)
    ⟨.error .client, Replica.opened (sampleLogs 0) 2 (.create []), ⟨_, hshow₁⟩, rfl⟩
  have hrun := hrun.snoc (.stopSign (w := sampleWorld (.opened (sampleLogs 1) 0 (.create [])))
    hshow₁ Nat.two_pos rfl rfl rfl rfl ⟨_, hshow₂ 0 (Nat.zero_le _)⟩)
  have hrun := hrun.snoc (.advance ⟨_, hshow₂ 3 le_rfl⟩ (Nat.zero_le _))
  have hrun := hrun.snoc (.commands (sampleWorld (.opened (sampleLogs 1) 0 (.create [])))
    (hshow₂ 3 le_rfl) (by decide) le_rfl)
  exact ⟨_, _, hrun, rfl, ⟨_, rfl⟩, rfl, rfl, by decide, by decide, by decide⟩

/-- The instance opened at the StopSign is recovered from a storage that holds the three commands. -/
theorem recovered_run : ∃ (tr : List (Machine.Transition (Node Replica ReplicaMsg)
      (Event ReplicaMsg Replica))) (n : Node Replica ReplicaMsg),
    (Node.machine sampleEnv sampleLogs Database.empty).Run tr n ∧ tr.getLast?.map (·.after) = some n ∧
    (∃ w, tr.getLast?.map (·.event) = some (.handle w)) ∧
    (∃ t ∈ tr, t.before.conf = 0 ∧ t.after.conf = 1 ∧ t.after.server.omniPaxos.decidedIdx = 3) ∧
    n.conf = 1 ∧ n.server.lastDecidedIdx = 3 ∧ n.applied = {2} ∧
    n.server.database.get "b" = none := by
  have hshow₁ := sampleLogs_shows 0 (d := 2) le_rfl
  have hshow₂ := sampleLogs_shows 1 (d := 3) le_rfl
  have hrun := Machine.Run.nil (M := Node.machine sampleEnv sampleLogs Database.empty)
    ⟨.error .client, Replica.opened (sampleLogs 0) 2 (.create []), ⟨_, hshow₁⟩, rfl⟩
  have hrun := hrun.snoc (.stopSign (w := sampleWorld (.opened (sampleLogs 1) 3 (.create [])))
    hshow₁ Nat.two_pos rfl rfl rfl rfl ⟨_, hshow₂⟩)
  have hrun := hrun.snoc (.commands (sampleWorld (.opened (sampleLogs 1) 3 (.create [])))
    hshow₂ (by decide) le_rfl)
  exact ⟨_, _, hrun, rfl, ⟨_, rfl⟩, ⟨_, List.mem_append_left _ List.mem_cons_self, rfl, rfl, rfl⟩, rfl,
    rfl, by decide, by decide⟩

/-- A last call after which the index is 3 and one entry is applied does not count. -/
theorem not_counts {tr : List (Machine.Transition (Node OP Msg) (Event Msg Storage))}
    (hafter : tr.getLast?.map (·.after) = some n)
    (hevent : ∃ w, tr.getLast?.map (·.event) = some (.handle w)) (hlast : n.server.lastDecidedIdx = 3)
    (happlied : n.applied = {2}) : ¬∀ t ∈ tr, Counts t ∧ CatchesUp t := by
  obtain ⟨t, hlastT, rfl⟩ := Option.map_eq_some_iff.mp hafter
  obtain ⟨w, hevent⟩ := hevent
  intro hall
  rw [hlastT] at hevent
  have hcounts := (hall t (List.mem_of_getLast? hlastT)).1 w (Option.some.inj hevent)
  rw [hlast, happlied] at hcounts
  cases hcounts

/-- The run ends with a call after which the index is 3, of the next configuration's entries only
number 2 is applied, and the second command is lost; so too where the next instance is recovered. -/
theorem decided_entry_skipped :
    (∃ (tr : List (Machine.Transition (Node Replica ReplicaMsg) (Event ReplicaMsg Replica)))
        (n : Node Replica ReplicaMsg),
      (Node.machine sampleEnv sampleLogs Database.empty).Run tr n ∧
      ¬(∀ t ∈ tr, Counts t ∧ CatchesUp t) ∧ n.conf = 1 ∧
      n.server.lastDecidedIdx = 3 ∧ n.applied = {2} ∧ n.server.database.get "b" = none) ∧
    ∃ (tr : List (Machine.Transition (Node Replica ReplicaMsg) (Event ReplicaMsg Replica)))
        (n : Node Replica ReplicaMsg),
      (Node.machine sampleEnv sampleLogs Database.empty).Run tr n ∧
      (∃ t ∈ tr, t.before.conf = 0 ∧ t.after.conf = 1 ∧ t.after.server.omniPaxos.decidedIdx = 3) ∧
      ¬(∀ t ∈ tr, Counts t ∧ CatchesUp t) ∧ n.conf = 1 ∧
      n.server.lastDecidedIdx = 3 ∧ n.applied = {2} ∧ n.server.database.get "b" = none := by
  obtain ⟨tr, n, hrun, hafter, hevent, hconf, hlast, happlied, -, hb⟩ := skipping_run
  obtain ⟨tr', n', hrun', hafter', hevent', hopens, hconf', hlast', happlied', hb'⟩ := recovered_run
  exact ⟨⟨tr, n, hrun, not_counts hafter hevent hlast happlied, hconf, hlast, happlied, hb⟩,
    tr', n', hrun', hopens, not_counts hafter' hevent' hlast' happlied', hconf', hlast', happlied', hb'⟩

theorem skips_iff_sample : ∃ (tr : List (Machine.Transition (Node Replica ReplicaMsg)
      (Event ReplicaMsg Replica))) (n : Node Replica ReplicaMsg),
    (Node.machine sampleEnv sampleLogs Database.empty).Run tr n ∧ n.applied = {2} ∧
    ((∀ t ∈ tr, Counts t ∧ CatchesUp t) ↔ ∀ t ∈ tr, Ended t sampleEnv) ∧
    ((∀ t ∈ tr, SkipsNone t) ↔ ∀ t ∈ tr, Node.JumpsNot t) := by
  obtain ⟨tr, n, hrun, -, -, -, -, happlied, -⟩ := skipping_run
  exact ⟨tr, n, hrun, happlied, (skips_iff hrun).1, (skips_iff hrun).2.1⟩

end Reconfig
end OmniKV
