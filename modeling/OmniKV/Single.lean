import OmniKV.Node
import OmniKV.Replica

/-!
# Single

One configuration without a StopSign, with decided log `L`.

Here a node never falls behind its index: the entries it has applied are the first
`lastDecidedIdx` ones (`Single.Inv`), so no call of `handle_decided_entries` jumps, and after a
call the index is the decided index. Without kills the database is the log prefix run on the disk
the process found. With kills it still is, once a call returns: a killed process leaves a mixture
of old and new values, but only on the keys of decided commands, and the replay overwrites these.
-/

namespace OmniKV
namespace Single

open Overlay
open OmniPaxos (getDecidedIdx)

variable {OP Msg Storage : Type} [OmniPaxos OP Msg Storage]

def logs (L : List KVCommand) : Nat → ConfigLog := fun _ => { cmds := L, stop := none }

structure Inv (L : List KVCommand) (n : Node OP Msg) : Prop extends Node.Synced (logs L) n where
  conf : n.conf = 0
  last : n.server.lastDecidedIdx = n.applied.card

variable {env : Env} {L : List KVCommand} {n n' : Node OP Msg}

theorem Inv.noJump (h : Inv L n) : n.NoJump := Or.inr (Or.inl h.last.le)

theorem Inv.appliedCmds (h : Inv L n) :
    n.appliedCmds (logs L) = L.take n.server.lastDecidedIdx := by
  rw [Node.appliedCmds, h.conf, h.last]
  rfl

theorem Inv.database_eq (h : Inv L n) :
    n.server.database = n.boot.applyCommands (L.take n.server.lastDecidedIdx) := by
  rw [h.database, h.appliedCmds]

theorem Inv.readIdx_eq (h : Inv L n) : n.server.readIdx = n.server.lastDecidedIdx := by
  have hlast := h.last
  have hle := h.applied_le
  rcases n.server.readIdx_cases with hread | ⟨hread, hzero⟩
  · exact hread
  · omega

/-- A call of `handle_decided_entries` reads nothing, or commands up to the decided index. -/
theorem Inv.handle_cases (h : Inv L n) {w : World Storage} {s' : Server OP Msg} {t : SnapshotTree}
    (hshow : Shows n.server.omniPaxos (logs L n.conf) t)
    (hs : n.server.handleDecidedEntries env w = .ok s') :
    (n.server.lastDecidedIdx = getDecidedIdx n.server.omniPaxos ∧ n.server.readsStop = false ∧
      n.afterHandle s' = n) ∨
    (n.server.lastDecidedIdx < getDecidedIdx n.server.omniPaxos ∧ n.server.readsStop = false ∧
      n.afterHandle s' = { n with
        server := { n.server with
          database := n.server.replayed (logs L n.conf) t
          lastDecidedIdx := getDecidedIdx n.server.omniPaxos }.send 0
            (.apiResponse (.decided (getDecidedIdx n.server.omniPaxos)))
        applied := Finset.range (getDecidedIdx n.server.omniPaxos) }) := by
  have hread := h.readIdx_eq
  have hlast := h.last
  have hle := h.applied_le
  rcases Node.afterHandle_cases hshow hs with ⟨hnone, heq⟩ | ⟨hlt, _, hstop, heq⟩ | ⟨_, hd, _⟩
  · refine Or.inl ⟨by omega, Server.readsStop_nothing hnone, ?_⟩
    rw [heq, hread]
  · refine Or.inr ⟨by omega, hstop, ?_⟩
    rw [heq, (h.covered hshow h.noJump hlt).2]
  · -- a StopSign is decided in no log of `logs L`
    have hlen := hshow.decided_le
    rw [hd] at hlen
    exact absurd hlen (Nat.not_succ_le_self _)

/-- A call of `handle_decided_entries` keeps the invariant, and catches up with the decided index. -/
theorem Inv.handle (h : Inv L n) {w : World Storage} {s' : Server OP Msg}
    (hs : n.server.handleDecidedEntries env w = .ok s') :
    Inv L (n.afterHandle s') ∧ s'.lastDecidedIdx = getDecidedIdx n.server.omniPaxos := by
  obtain ⟨t, hshow⟩ := h.runs
  have hkept : n.server.readsStop = false → Node.Synced (logs L) (n.afterHandle s') := by
    intro hstop
    refine h.toSynced.handle h.noJump hs fun hreads => ?_
    rw [hstop] at hreads
    cases hreads
  have hserver := Node.afterHandle_server n s'
  rcases h.handle_cases hshow hs with ⟨hidx, hstop, heq⟩ | ⟨_, hstop, heq⟩
  · have hsynced := hkept hstop
    rw [heq] at hsynced hserver ⊢
    rw [← hserver]
    exact ⟨⟨hsynced, h.conf, h.last⟩, hidx⟩
  · have hsynced := hkept hstop
    rw [heq] at hsynced hserver ⊢
    rw [← hserver]
    exact ⟨⟨hsynced, h.conf, (Finset.card_range _).symm⟩, rfl⟩

theorem Inv.step {e : Event Msg Storage} (h : Inv L n) (hs : Node.Step env (logs L) n e n')
    (hcatchup : ∀ w kvList, e ≠ .catchup w kvList) : Inv L n' := by
  have hsynced := h.toSynced.step hs (fun _ _ => h.noJump)
    (fun w kvList he => absurd he (hcatchup w kvList))
  cases hs with
  | advance _ _ => exact ⟨hsynced, h.conf, h.last⟩
  | get hs =>
    rw [Server.handleMsg_get] at hs
    cases hs
    exact ⟨hsynced, h.conf, h.last⟩
  | handle hs _ => exact (h.handle hs).1
  | catchup _ => exact absurd rfl (hcatchup _ _)
  | restart _ hrecover _ _ =>
    refine ⟨hsynced, rfl, ?_⟩
    rw [Server.recover_ok hrecover]
    rfl

theorem Inv.init {B : Database} (h : (Node.machine env (logs L) B : Machine (Node OP Msg)
    (Event Msg Storage)).init n) : Inv L n := by
  have hsynced := Node.Synced.init h
  obtain ⟨api, op, _, rfl⟩ := h
  exact ⟨hsynced, rfl, rfl⟩

/-- In one configuration `handle_decided_entries` never panics. -/
theorem Inv.handle_ok (h : Inv L n) (env : Env) (w : World Storage) :
    ∃ s', n.server.handleDecidedEntries env w = .ok s' := by
  obtain ⟨t, hshow⟩ := h.runs
  have hd : getDecidedIdx n.server.omniPaxos ≤ L.length := hshow.decided_le
  by_cases hlt : n.server.readIdx < getDecidedIdx n.server.omniPaxos
  · exact ⟨_, Server.handleDecidedEntries_commands env w hshow hlt hd⟩
  · exact ⟨_, Server.handleDecidedEntries_nothing env w (Nat.le_of_not_lt hlt)⟩

/-! ## Answers to clients -/

def decidedArgs (sent : List (Nat × Message Msg)) : List Nat :=
  sent.filterMap fun
    | (_, .apiResponse (.decided i)) => some i
    | _ => none

/-- The index of the latest `Decided` response, 0 if none was sent. -/
def latestDecided (sent : List (Nat × Message Msg)) : Nat := (decidedArgs sent).getLast?.getD 0

/-- A `Get` response carries the value of its key after as many commands as the latest `Decided`
response before it says. -/
def GoodAnswer (L : List KVCommand) (before : List (Nat × Message Msg))
    (m : Nat × Message Msg) : Prop :=
  ∀ key value, m.2 = .apiResponse (.get key value) →
    value = (Database.empty.applyCommands (L.take (latestDecided before))).get key

theorem decidedArgs_append (sent more : List (Nat × Message Msg)) :
    decidedArgs (sent ++ more) = decidedArgs sent ++ decidedArgs more := by
  simp [decidedArgs]

theorem latestDecided_decided (sent : List (Nat × Message Msg)) (r i : Nat) :
    latestDecided (sent ++ [(r, .apiResponse (.decided i))]) = i := by
  simp [latestDecided, decidedArgs]

theorem decidedArgs_get (sent : List (Nat × Message Msg)) (r : Nat) (key : String)
    (value : Option String) :
    decidedArgs (sent ++ [(r, .apiResponse (.get key value))]) = decidedArgs sent := by
  simp [decidedArgs]

structure Answered (L : List KVCommand) (n : Node OP Msg) : Prop extends Inv L n where
  boot : n.boot = Database.empty
  latest : latestDecided n.server.network.sent = n.server.lastDecidedIdx
  answers : History.Each (GoodAnswer L) n.server.network.sent
  increasing : (decidedArgs n.server.network.sent).Pairwise (· < ·)
  told : ∀ i ∈ decidedArgs n.server.network.sent, i ≤ n.server.lastDecidedIdx

/-- What happens to a node on its own: no state transfer comes in and its process is not killed. -/
def Local : Event Msg Storage → Prop
  | .advance | .get _ | .handle _ => True
  | .catchup _ _ | .restart _ => False

theorem Answered.handle (h : Answered L n) {w : World Storage} {s' : Server OP Msg}
    (hs : n.server.handleDecidedEntries env w = .ok s') : Answered L (n.afterHandle s') := by
  have hinv := (h.toInv.handle hs).1
  obtain ⟨t, hshow⟩ := h.runs
  rcases h.handle_cases hshow hs with ⟨_, _, heq⟩ | ⟨hlt, _, heq⟩
  · rw [heq]
    exact h
  · rw [heq] at hinv ⊢
    refine ⟨hinv, h.boot, latestDecided_decided _ _ _, h.answers.snoc ?_, ?_, ?_⟩
    · intro key value hm
      cases hm
    · show (decidedArgs (_ ++ _)).Pairwise _
      rw [decidedArgs_append]
      refine List.pairwise_append.mpr ⟨h.increasing, List.pairwise_singleton _ _, ?_⟩
      intro i hi j hj
      obtain rfl : j = getDecidedIdx n.server.omniPaxos := by simpa [decidedArgs] using hj
      have htold := h.told i hi
      omega
    · show ∀ i ∈ decidedArgs (_ ++ _), i ≤ getDecidedIdx n.server.omniPaxos
      rw [decidedArgs_append]
      intro i hi
      rcases List.mem_append.mp hi with hi | hi
      · have htold := h.told i hi
        omega
      · obtain rfl : i = getDecidedIdx n.server.omniPaxos := by simpa [decidedArgs] using hi
        exact le_rfl

theorem Answered.step {e : Event Msg Storage} (h : Answered L n)
    (hs : Node.Step env (logs L) n e n') (he : Local e) : Answered L n' := by
  have hinv := h.toInv.step hs fun w kvList hc => by rw [hc] at he; exact he
  cases hs with
  | advance _ _ => exact ⟨hinv, h.boot, h.latest, h.answers, h.increasing, h.told⟩
  | get hs =>
    rename_i key _
    rw [Server.handleMsg_get] at hs
    cases hs
    refine ⟨hinv, h.boot, ?_, h.answers.snoc ?_, ?_, ?_⟩
    · show latestDecided (_ ++ _) = _
      rw [latestDecided, decidedArgs_get]
      exact h.latest
    · intro key' value hm
      cases hm
      rw [h.latest, h.database_eq, h.boot]
    · show (decidedArgs (_ ++ _)).Pairwise _
      rw [decidedArgs_get]
      exact h.increasing
    · show ∀ i ∈ decidedArgs (_ ++ _), i ≤ _
      rw [decidedArgs_get]
      exact h.told
  | handle hs _ => exact h.handle hs
  | catchup _ => exact he.elim
  | restart _ _ _ _ => exact he.elim

theorem Answered.run {tr : List (Machine.Transition (Node OP Msg) (Event Msg Storage))}
    (hrun : (Node.machine env (logs L) Database.empty).Run tr n)
    (hlocal : ∀ t ∈ tr, Local t.event) : Answered L n := by
  refine hrun.invariant (C := fun t => Local t.event) ?_ (fun _ _ _ hI hs he => hI.step hs he) hlocal
  intro n₀ h0
  have hinv := Inv.init h0
  obtain ⟨api, op, hruns, rfl⟩ := h0
  exact ⟨hinv, rfl, rfl, History.Each.nil, List.Pairwise.nil, by simp [Server.initial, decidedArgs]⟩

/-- A node refines its log. -/
theorem refines_log {tr : List (Machine.Transition (Node OP Msg) (Event Msg Storage))}
    (hrun : (Node.machine env (logs L) Database.empty).Run tr n)
    (hlocal : ∀ t ∈ tr, Local t.event) :
    n.server.database = Database.empty.applyCommands (L.take n.server.lastDecidedIdx) ∧
    (∀ w : World Storage, ∃ s', n.server.handleDecidedEntries env w = .ok s' ∧
      s'.lastDecidedIdx = getDecidedIdx n.server.omniPaxos ∧
      s'.database = Database.empty.applyCommands (L.take s'.lastDecidedIdx)) ∧
    History.Each (GoodAnswer L) n.server.network.sent ∧
    (decidedArgs n.server.network.sent).Pairwise (· < ·) ∧
    ∀ {env' : Env} {tr' : List (Machine.Transition (Node OP Msg) (Event Msg Storage))}
      {m : Node OP Msg}, (Node.machine env' (logs L) Database.empty).Run tr' m →
      (∀ t ∈ tr', Local t.event) → m.server.lastDecidedIdx = n.server.lastDecidedIdx →
      m.server.database = n.server.database := by
  have h := Answered.run hrun hlocal
  have hdb := h.database_eq
  rw [h.boot] at hdb
  refine ⟨hdb, ?_, h.answers, h.increasing, ?_⟩
  · intro w
    obtain ⟨s', hs⟩ := h.handle_ok env w
    have h' := h.handle hs
    have hdb' := h'.database_eq
    rw [h'.boot, Node.afterHandle_server] at hdb'
    exact ⟨s', hs, (h.toInv.handle hs).2, hdb'⟩
  · intro env' tr' m hrun' hlocal' hsame
    have h' := Answered.run hrun' hlocal'
    rw [h'.database_eq, h'.boot, hdb, hsame]

def sampleLog : List KVCommand := [.put ⟨"a", "1"⟩, .delete "a", .put ⟨"b", "2"⟩]

def sampleReplica (decidedIdx : Nat) (compacted : SnapshotTree) : Replica :=
  .opened { cmds := sampleLog, stop := none } decidedIdx compacted

def idleWorld : World Replica :=
  { order := .sorted, openStorage := fun _ => none, api := .error .client }

/-- A client reads between two batches, the second of which starts with a snapshot of the first. -/
theorem sample_run : ∃ (tr : List (Machine.Transition (Node Replica ReplicaMsg)
      (Event ReplicaMsg Replica))) (n : Node Replica ReplicaMsg),
    (Node.machine sampleEnv (logs sampleLog) Database.empty).Run tr n ∧
    (∀ t ∈ tr, Local t.event) ∧ n.server.lastDecidedIdx = 3 ∧
    n.server.network.sent = [(0, .apiResponse (.decided 1)),
      (0, .apiResponse (.get "a" (some "1"))), (0, .apiResponse (.decided 3))] := by
  have hshow₁ : Shows (sampleReplica 1 (.create [])) ⟨sampleLog, none⟩ (.create []) :=
    Replica.shows_uncompacted rfl (by decide)
  have hshow₂ : Shows (sampleReplica 3 (.create (sampleLog.take 2))) ⟨sampleLog, none⟩
      (.create (sampleLog.take 2)) := Replica.opened_shows (by decide) (by decide) (by decide)
  have hrun := Machine.Run.nil (M := Node.machine sampleEnv (logs sampleLog) Database.empty)
    ⟨.error .client, sampleReplica 1 (.create []), ⟨_, hshow₁⟩, rfl⟩
  have hrun := hrun.snoc (.commands idleWorld hshow₁ (by decide) (by decide))
  have hrun := hrun.snoc (.answer idleWorld "a")
  have hrun := hrun.snoc (.advance ⟨_, hshow₂⟩ (by decide))
  have hrun := hrun.snoc (.commands idleWorld hshow₂ (by decide) (by decide))
  refine ⟨_, _, hrun, ?_, rfl, by decide⟩
  simp [Local]

theorem refines_log_sample : ∃ n : Node Replica ReplicaMsg,
    n.server.lastDecidedIdx = 3 ∧
    n.server.database = Database.empty.applyCommands (sampleLog.take 3) ∧
    History.Each (GoodAnswer sampleLog) n.server.network.sent := by
  obtain ⟨tr, n, hrun, hlocal, hlast, -⟩ := sample_run
  obtain ⟨hdb, -, hanswers, -⟩ := refines_log hrun hlocal
  rw [hlast] at hdb
  exact ⟨n, hlast, hdb, hanswers⟩

/-! ## Kills -/

/-- Restarts, and no state transfer; a restarted instance has decided at least what the killed one
had. -/
def Recovers (t : Machine.Transition (Node OP Msg) (Event Msg Storage)) : Prop :=
  match t.event with
  | .catchup _ _ => False
  | .restart _ =>
    getDecidedIdx t.before.server.omniPaxos ≤ getDecidedIdx t.after.server.omniPaxos
  | _ => True

/-- The disk a process found differs from `B` at most on the keys of decided commands. -/
structure Torn (B : Database) (L : List KVCommand) (n : Node OP Msg) : Prop extends Inv L n where
  boot : Set.EqOn n.boot.get B.get (logKeys (L.take (getDecidedIdx n.server.omniPaxos)))ᶜ

variable {B : Database}

theorem Torn.replayed (h : Torn B L n) {i : Nat}
    (hi : i = getDecidedIdx n.server.omniPaxos) :
    n.boot.applyCommands (L.take i) = B.applyCommands (L.take i) := by
  subst hi
  apply Database.ext_get
  rw [Database.get_applyCommands, Database.get_applyCommands]
  exact Delta.act_congr h.boot

/-- What a kill leaves. -/
theorem Torn.killed (h : Torn B L n) {w : World Storage} {db : Database}
    {sends : List (Nat × Message Msg)} (hkilled : n.server.Killed env w db sends) :
    Set.EqOn db.get B.get (logKeys (L.take (getDecidedIdx n.server.omniPaxos)))ᶜ := by
  obtain ⟨t, hshow⟩ := h.runs
  have hlast : n.server.lastDecidedIdx ≤ getDecidedIdx n.server.omniPaxos := by
    rw [h.last]
    exact h.applied_le
  intro key hkey
  have hrun : n.server.database.get key = n.boot.get key := by
    rw [h.database_eq, Database.get_applyCommands]
    exact Delta.act_eqOn _ _ fun hk => hkey (logKeys_take_subset L hlast hk)
  rw [hkilled.eqOn hshow hkey, hrun, h.boot hkey]

theorem Torn.step {e : Event Msg Storage} (h : Torn B L n) (hs : Node.Step env (logs L) n e n')
    (he : Recovers ⟨n, e, n'⟩) : Torn B L n' := by
  have hinv := h.toInv.step hs fun w kvList hc => by rw [hc] at he; exact he
  cases hs with
  | advance _ hle =>
    refine ⟨hinv, fun key hkey => h.boot fun hk => hkey ?_⟩
    exact logKeys_take_subset L hle hk
  | get hs =>
    rw [Server.handleMsg_get] at hs
    cases hs
    exact ⟨hinv, h.boot⟩
  | handle hs _ =>
    refine ⟨hinv, ?_⟩
    obtain ⟨t, hshow⟩ := h.runs
    rcases h.handle_cases hshow hs with ⟨_, _, heq⟩ | ⟨_, _, heq⟩
    · rw [heq]
      exact h.boot
    · rw [heq]
      exact h.boot
  | catchup _ => exact he.elim
  | restart hkilled _ _ _ =>
    refine ⟨hinv, fun key hkey => h.killed hkilled fun hk => hkey ?_⟩
    exact logKeys_take_subset L he hk

/-- However often a process is killed, its successor that completes a call of
`handle_decided_entries` has the decided prefix run on the first disk. -/
theorem recovers_by_replay {tr : List (Machine.Transition (Node OP Msg) (Event Msg Storage))}
    (hrun : (Node.machine env (logs L) B).Run tr n) (hrecovers : ∀ t ∈ tr, Recovers t)
    (w : World Storage) :
    ∃ s', n.server.handleDecidedEntries env w = .ok s' ∧
      s'.database = B.applyCommands (L.take (getDecidedIdx n.server.omniPaxos)) := by
  have h : Torn B L n := by
    refine hrun.invariant (C := Recovers) ?_ (fun _ _ _ hI hs he => hI.step hs he) hrecovers
    intro n₀ h0
    have hinv := Inv.init h0
    obtain ⟨api, op, _, rfl⟩ := h0
    exact ⟨hinv, fun _ _ => rfl⟩
  obtain ⟨s', hs⟩ := h.handle_ok env w
  obtain ⟨hinv, hidx⟩ := h.toInv.handle hs
  have hdb := hinv.database_eq
  rw [Node.afterHandle_server, Node.afterHandle_boot, hidx] at hdb
  exact ⟨s', hs, hdb.trans (h.replayed rfl)⟩

/-- The sample replica compacts its whole log when its process has been restarted. -/
def compactedReplica : Replica := sampleReplica 3 (.merge .sorted (.create []) (.create sampleLog))

theorem sample_recover (db : Database) :
    (Server.initial sampleEnv (.error .client) (sampleReplica 3 (.create [])) db).recover true =
      .ok (Server.initial sampleEnv (.error .client) compactedReplica db) := rfl

/-- A process is killed after the first of two writes; its successor compacts the whole log and is
killed after one write of the snapshot. -/
theorem killed_run : ∃ (tr : List (Machine.Transition (Node Replica ReplicaMsg)
      (Event ReplicaMsg Replica))) (n : Node Replica ReplicaMsg),
    (Node.machine sampleEnv (logs sampleLog) Database.empty).Run tr n ∧ (∀ t ∈ tr, Recovers t) ∧
    n.boot.get "a" = some "1" ∧ n.boot.get "b" = some "2" ∧
    getDecidedIdx n.server.omniPaxos = 3 := by
  have hshow₁ : Shows (sampleReplica 2 (.create [])) ⟨sampleLog, none⟩ (.create []) :=
    Replica.shows_uncompacted rfl (by decide)
  have hshow₂ : Shows compactedReplica ⟨sampleLog, none⟩ _ :=
    Replica.opened_shows (by decide) (by decide) (by decide)
  have hrun := Machine.Run.nil (M := Node.machine sampleEnv (logs sampleLog) Database.empty)
    ⟨.error .client, sampleReplica 2 (.create []), ⟨_, hshow₁⟩, rfl⟩
  have hrun := hrun.snoc (.restart (w := idleWorld) (.writing 1) (sample_recover _) ⟨_, hshow₂⟩ rfl)
  have hrun := hrun.snoc (.restart (w := idleWorld) (.writing 1) (sample_recover _) ⟨_, hshow₂⟩ rfl)
  refine ⟨_, _, hrun, ?_, by decide +kernel, by decide +kernel, rfl⟩
  simp only [List.nil_append, List.cons_append, List.mem_cons, List.not_mem_nil, or_false,
    forall_eq_or_imp, forall_eq, Recovers]
  decide

theorem recovers_by_replay_sample : ∃ (n : Node Replica ReplicaMsg)
    (s' : Server Replica ReplicaMsg), n.boot.get "a" = some "1" ∧ n.boot.get "b" = some "2" ∧
    n.server.handleDecidedEntries sampleEnv idleWorld = .ok s' ∧
    s'.database = Database.empty.applyCommands (sampleLog.take 3) := by
  obtain ⟨tr, n, hrun, hrecovers, ha, hb, hd⟩ := killed_run
  obtain ⟨s', hs, hdb⟩ := recovers_by_replay hrun hrecovers idleWorld
  rw [hd] at hdb
  exact ⟨n, s', ha, hb, hs, hdb⟩

end Single
end OmniKV
