import OmniKV.Node
import OmniKV.Replica

/-!
# Numbering

The numbers of the configurations, in a cluster whose nodes join and restart at any time.

A process counts its configurations itself: it starts at 1, adds one at each StopSign, and proposes its
number plus one. The count is right in a process that has been there since the first configuration, and
too small in one that has joined later. `numbering_iff` says in which runs every process gets the number
of the configuration it enters and every proposal a fresh one.

Configurations are listed from the first on, so that number `i + 1` belongs at place `i`.
-/

namespace OmniKV
namespace Numbering

open OmniPaxos (getDecidedIdx)

variable {OP Msg Storage : Type} [OmniPaxos OP Msg Storage]

/-- A process, the configuration it takes part in, and the one it started in. -/
structure Member (OP Msg : Type) where
  server : Server OP Msg
  conf : Nat
  joined : Nat

structure Cluster (OP Msg : Type) where
  member : Nat → Member OP Msg
  proposals : List (Nat × ClusterConfig)
  decided : List ClusterConfig

def Cluster.set (f : Cluster OP Msg) (p : Nat) (m : Member OP Msg) : Cluster OP Msg :=
  { f with member := Function.update f.member p m }

inductive Event (Msg Storage : Type) where
  | start (p conf : Nat)
  | advance (p : Nat)
  | message (p : Nat) (w : World Storage) (m : Message Msg)
  | decide (config : ClusterConfig)
  | handle (p : Nat) (w : World Storage)

/-- The configuration the server proposes on receiving `m`. -/
def proposed (env : Env) (w : World Storage) (s : Server OP Msg) : Message Msg → Option ClusterConfig
  | .debug _ => (s.checkReplicas env w).2
  | _ => none

/-- A process starts in any configuration; the latest configuration decides on one that has been
proposed in it; a StopSign names the configuration that follows. -/
inductive Step (env : Nat → Env) : Cluster OP Msg → Event Msg Storage → Cluster OP Msg → Prop where
  | start {f : Cluster OP Msg} (p conf : Nat) {api : Except QueryError StatefulSet} {op : OP}
      {db : Database} {restarted : Bool} {s : Server OP Msg} : conf < f.decided.length →
      (Server.initial (env p) api op db).recover restarted = .ok s →
      Step env f (.start p conf) (f.set p { server := s, conf := conf, joined := conf })
  | advance {f : Cluster OP Msg} (p : Nat) (op : OP) :
      Step env f (.advance p)
        (f.set p { f.member p with server := { (f.member p).server with omniPaxos := op } })
  | message {f : Cluster OP Msg} {p : Nat} {w : World Storage} {m : Message Msg}
      {s : Server OP Msg} : (f.member p).server.handleMsg (env p) w m = .ok s →
      Step env f (.message p w m) { f.set p { f.member p with server := s } with
        proposals := f.proposals ++ (proposed (env p) w (f.member p).server m).toList.map
          fun config => ((f.member p).conf, config) }
  | decide {f : Cluster OP Msg} (config : ClusterConfig) :
      (f.decided.length - 1, config) ∈ f.proposals →
      Step env f (.decide config) { f with decided := f.decided ++ [config] }
  | handle {f : Cluster OP Msg} {p : Nat} {w : World Storage} {L : ConfigLog} {s : Server OP Msg} :
      Runs (f.member p).server.omniPaxos L →
      (∀ stopsign, L.stop = some stopsign →
        f.decided[(f.member p).conf + 1]? = some stopsign.nextConfig) →
      (f.member p).server.handleDecidedEntries (env p) w = .ok s →
      Step env f (.handle p w) (f.set p { f.member p with
        server := s
        conf := if (f.member p).server.readsStop then (f.member p).conf + 1 else (f.member p).conf })

def machine (env : Nat → Env) : Machine (Cluster OP Msg) (Event Msg Storage) where
  init f := f.proposals = [] ∧ (∃ api, f.decided = [initialClusterConfig api]) ∧
    ∀ p, ∃ (api : Except QueryError StatefulSet) (op : OP) (db : Database) (restarted : Bool)
      (s : Server OP Msg), (Server.initial (env p) api op db).recover restarted = .ok s ∧
      f.member p = { server := s, conf := 0, joined := 0 }
  step := Step env

section Transitions

variable (env : Nat → Env) (t : Machine.Transition (Cluster OP Msg) (Event Msg Storage))

/-- A server that has applied a StopSign has the number of the configuration it names. -/
def Entered : Prop :=
  ∀ p w, t.event = .handle p w → ∀ stopsign,
    .stopSign stopsign true ∈ (t.before.member p).server.entriesRead →
    (t.after.member p).server.currentConfigId = stopsign.nextConfig.configurationId

/-- A proposed number is greater than those of all configurations decided before. -/
def Fresh : Prop :=
  ∀ p w m config, t.event = .message p w m →
    proposed (env p) w (t.before.member p).server m = some config →
    ∀ c ∈ t.before.decided, c.configurationId < config.configurationId

/-- StopSigns are applied by processes started in the first configuration. -/
def FoundersEnter : Prop :=
  ∀ p w, t.event = .handle p w → (t.before.member p).server.readsStop = true →
    (t.before.member p).joined = 0

/-- Configurations are proposed by processes started in the first configuration, in the latest
configuration, before the numbers run out. -/
def FoundersPropose : Prop :=
  ∀ p w m, t.event = .message p w m → (proposed (env p) w (t.before.member p).server m).isSome →
    (t.before.member p).joined = 0 ∧ (t.before.member p).conf + 1 = t.before.decided.length ∧
      t.before.decided.length + 1 < 2 ^ 32

end Transitions

/-! ## What the calls do to the number -/

theorem checkReplicas_number {env : Env} {w : World Storage} {s : Server OP Msg}
    {config : ClusterConfig} (h : (s.checkReplicas env w).2 = some config) :
    config.configurationId = (s.currentConfigId + 1) % 2 ^ 32 := by
  unfold Server.checkReplicas at h
  repeat' split at h
  all_goals cases h
  rfl

theorem checkReplicas_currentConfigId (env : Env) (w : World Storage) (s : Server OP Msg) :
    (s.checkReplicas env w).1.currentConfigId = s.currentConfigId := by
  unfold Server.checkReplicas
  repeat' split
  all_goals rfl

theorem proposed_number {env : Env} {w : World Storage} {s : Server OP Msg} {m : Message Msg}
    {config : ClusterConfig} (h : proposed env w s m = some config) :
    config.configurationId = (s.currentConfigId + 1) % 2 ^ 32 := by
  cases m with
  | debug text => exact checkReplicas_number h
  | _ => cases h

theorem handleMsg_currentConfigId {env : Env} {w : World Storage} {s s' : Server OP Msg}
    {m : Message Msg} (h : s.handleMsg env w m = .ok s') : s'.currentConfigId = s.currentConfigId := by
  cases Server.handleMsg_cases h with
  | quiet _ | propose _ _ _ => exact checkReplicas_currentConfigId env w s
  | get _ | append _ _ | omniPaxosMsg _ | stateCatchup _ | reconnected _ | leads _ => rfl

theorem handle_currentConfigId {env : Env} {w : World Storage} {s s' : Server OP Msg}
    {L : ConfigLog} (hruns : Runs s.omniPaxos L) (h : s.handleDecidedEntries env w = .ok s') :
    s'.currentConfigId =
      if s.readsStop then (s.currentConfigId + 1) % 2 ^ 64 else s.currentConfigId := by
  obtain ⟨t, hshow⟩ := hruns
  cases Server.handleDecidedEntries_cases hshow h with
  | nothing hle => rw [Server.readsStop_nothing hle, if_neg Bool.false_ne_true]
  | commands hlt hd =>
    rw [Server.readsStop_commands hshow hlt hd, if_neg Bool.false_ne_true]
    rfl
  | stopSign hlt hss hd hstorage hbuild =>
    rw [Server.readsStop_stopSign hshow hlt hss hd, if_pos rfl]
    unfold Server.finishDecided
    split <;> rfl

/-! ## Runs -/

variable {env : Nat → Env} {f f' : Cluster OP Msg}

@[simp] theorem set_member_self (f : Cluster OP Msg) (p : Nat) (m : Member OP Msg) :
    (f.set p m).member p = m := by
  simp [Cluster.set]

/-- The counts of a process that started in configuration `joined`. -/
structure Counts (n : Nat) (m : Member OP Msg) : Prop where
  joined_le : m.joined ≤ m.conf
  conf_lt : m.conf < n
  number : m.server.currentConfigId = m.conf - m.joined + 1

structure Numbered (f : Cluster OP Msg) : Prop where
  few : f.decided.length < 2 ^ 32
  decided : ∀ i c, f.decided[i]? = some c → c.configurationId = i + 1
  proposals : ∀ k c, (k, c) ∈ f.proposals → c.configurationId = k + 2 ∧ k + 2 < 2 ^ 32
  member : ∀ p, Counts f.decided.length (f.member p)

theorem Numbered.set (h : Numbered f) {p : Nat} {m : Member OP Msg}
    (hm : Counts f.decided.length m) : Numbered (f.set p m) := by
  refine ⟨h.few, h.decided, h.proposals, ?_⟩
  intro q
  by_cases hq : q = p
  · subst hq
    rw [set_member_self]
    exact hm
  · simpa [Cluster.set, hq] using h.member q

/-- With the decided configurations numbered from 1 on, a number is fresh when it exceeds their
count. -/
theorem Numbered.fresh_iff (h : Numbered f) (hpos : 0 < f.decided.length) {x : Nat} :
    (∀ c ∈ f.decided, c.configurationId < x) ↔ f.decided.length < x := by
  constructor
  · intro hall
    have hlast : f.decided[f.decided.length - 1]? = some f.decided[f.decided.length - 1] :=
      List.getElem?_eq_getElem (by omega)
    have hid := h.decided _ _ hlast
    have hlt := hall _ (List.mem_of_getElem? hlast)
    omega
  · intro hlt c hc
    obtain ⟨i, hi⟩ := List.mem_iff_getElem?.mp hc
    have hid := h.decided i c hi
    have hile := (List.getElem?_eq_some_iff.mp hi).1
    omega

/-- A proposal is fresh exactly when it is made by a founder in the latest configuration before the
numbers run out. -/
theorem Numbered.proposal_iff (h : Numbered f) (p : Nat) {config : ClusterConfig}
    (hid : config.configurationId = ((f.member p).server.currentConfigId + 1) % 2 ^ 32) :
    (∀ c ∈ f.decided, c.configurationId < config.configurationId) ↔
      (f.member p).joined = 0 ∧ (f.member p).conf + 1 = f.decided.length ∧
        f.decided.length + 1 < 2 ^ 32 := by
  obtain ⟨hjoined, hconf, hnumber⟩ := h.member p
  have hfew := h.few
  rw [h.fresh_iff (by omega), hid, hnumber]
  omega

theorem Numbered.entered_iff (h : Numbered f) (p : Nat) {s' : Server OP Msg} {L : ConfigLog}
    {w : World Storage} {stopsign : StopSign} (hruns : Runs (f.member p).server.omniPaxos L)
    (hnext : ∀ stopsign, L.stop = some stopsign →
      f.decided[(f.member p).conf + 1]? = some stopsign.nextConfig)
    (hs : (f.member p).server.handleDecidedEntries (env p) w = .ok s')
    (hmem : .stopSign stopsign true ∈ (f.member p).server.entriesRead) :
    s'.currentConfigId = stopsign.nextConfig.configurationId ↔ (f.member p).joined = 0 := by
  obtain ⟨hjoined, hconf, hnumber⟩ := h.member p
  have hfew := h.few
  have hstop := Server.readsStop_iff.mpr ⟨stopsign, hmem⟩
  obtain ⟨t, hshow⟩ := id hruns
  have hid := h.decided _ _ (hnext stopsign (Server.stop_of_mem_entriesRead hshow hmem).2.1)
  rw [handle_currentConfigId hruns hs, if_pos hstop, hid, hnumber]
  omega

/-- The configuration of a proposal is decided as the next one. -/
theorem Numbered.decide (h : Numbered f) {config : ClusterConfig}
    (hid : config.configurationId = f.decided.length + 1) (hlimit : f.decided.length + 1 < 2 ^ 32) :
    Numbered { f with decided := f.decided ++ [config] } := by
  refine ⟨?_, ?_, h.proposals, ?_⟩
  · rw [List.length_append, List.length_singleton]
    exact hlimit
  · intro i c hi
    rcases Nat.lt_or_ge i f.decided.length with hlt | hge
    · rw [List.getElem?_append_left hlt] at hi
      exact h.decided i c hi
    · rw [List.getElem?_append_right hge, List.getElem?_singleton] at hi
      split at hi
      · cases hi
        omega
      · cases hi
  · intro p
    have hmember := h.member p
    refine ⟨hmember.joined_le, ?_, hmember.number⟩
    rw [List.length_append]
    exact Nat.lt_add_right _ hmember.conf_lt

theorem Numbered.step {e : Event Msg Storage} (h : Numbered f) (hs : Step env f e f')
    (hpropose : FoundersPropose env ⟨f, e, f'⟩) : Numbered f' := by
  have hfew := h.few
  cases hs with
  | start p conf hconf hrecover =>
    refine h.set ⟨le_rfl, hconf, ?_⟩
    rw [Server.recover_ok hrecover, Nat.sub_self]
    rfl
  | advance p op =>
    exact h.set ⟨(h.member p).joined_le, (h.member p).conf_lt, (h.member p).number⟩
  | message hs =>
    rename_i p w m s
    obtain ⟨hjoined, hconf, hnumber⟩ := h.member p
    have hset := h.set (p := p) (m := { f.member p with server := s })
      ⟨hjoined, hconf, by rw [handleMsg_currentConfigId hs, hnumber]⟩
    refine ⟨hset.few, hset.decided, ?_, hset.member⟩
    intro k c hmem
    rcases List.mem_append.mp hmem with hmem | hmem
    · exact h.proposals k c hmem
    · obtain ⟨config, hconfig, heq⟩ := List.mem_map.mp hmem
      obtain ⟨rfl, rfl⟩ := Prod.mk.inj heq
      have hsome := Option.mem_toList.mp hconfig
      have hpre := hpropose p w m rfl (by rw [hsome]; rfl)
      have hfounder : (f.member p).joined = 0 := hpre.1
      have hlatest : (f.member p).conf + 1 = f.decided.length := hpre.2.1
      have hlimit : f.decided.length + 1 < 2 ^ 32 := hpre.2.2
      have hid := proposed_number hsome
      rw [hnumber, hfounder] at hid
      omega
  | decide config hmem =>
    obtain ⟨hid, hlimit⟩ := h.proposals _ _ hmem
    have hconf := (h.member 0).conf_lt
    exact h.decide (by omega) (by omega)
  | handle hruns hnext hs =>
    rename_i p w L s
    obtain ⟨hjoined, hconf, hnumber⟩ := h.member p
    have hid := handle_currentConfigId hruns hs
    cases hstop : (f.member p).server.readsStop with
    | false =>
      rw [hstop, if_neg Bool.false_ne_true] at hid
      exact h.set ⟨hjoined, hconf, by rw [hid, hnumber]; rfl⟩
    | true =>
      rw [hstop, if_pos rfl] at hid
      obtain ⟨stopsign, hmem⟩ := Server.readsStop_iff.mp hstop
      obtain ⟨t, hshow⟩ := hruns
      have hss := hnext stopsign (Server.stop_of_mem_entriesRead hshow hmem).2.1
      have hlt := (List.getElem?_eq_some_iff.mp hss).1
      refine h.set ⟨?_, hlt, ?_⟩
      · simp only [if_true]
        omega
      · simp only [if_true]
        omega

theorem Numbered.init (h : (machine env : Machine (Cluster OP Msg) (Event Msg Storage)).init f) :
    Numbered f := by
  obtain ⟨hproposals, ⟨api, hdecided⟩, hmember⟩ := h
  constructor
  · rw [hdecided, List.length_singleton]
    omega
  · intro i c hi
    rw [hdecided, List.getElem?_singleton] at hi
    split at hi
    · cases hi
      simp_all [initialClusterConfig]
    · cases hi
  · intro k c hmem
    rw [hproposals] at hmem
    cases hmem
  · intro p
    obtain ⟨api, op, db, restarted, s, hrecover, heq⟩ := hmember p
    rw [heq, hdecided]
    refine ⟨le_rfl, Nat.one_pos, ?_⟩
    rw [Server.recover_ok hrecover]
    rfl

/-- In which runs every process gets the number of the configuration it enters and every proposed
number is fresh. -/
theorem numbering_iff {tr : List (Machine.Transition (Cluster OP Msg) (Event Msg Storage))}
    (hrun : (machine env).Run tr f) :
    (∀ t ∈ tr, Entered t ∧ Fresh env t) ↔ ∀ t ∈ tr, FoundersEnter t ∧ FoundersPropose env t := by
  refine hrun.forall_iff (H := fun _ => True) (I := Numbered) (fun _ h => .init h)
    (fun _ _ _ hI hs _ hC => hI.step hs hC.2) ?_ fun _ _ => trivial
  intro f e f' hI hs _
  refine and_congr ⟨?_, ?_⟩ ⟨?_, ?_⟩
  · intro hentered p w he hstop
    cases he
    obtain ⟨stopsign, hmem⟩ := Server.readsStop_iff.mp hstop
    have hnumber := hentered p w rfl stopsign hmem
    cases hs with
    | handle hruns hnext hs =>
      rw [set_member_self] at hnumber
      exact (hI.entered_iff p hruns hnext hs hmem).mp hnumber
  · intro henter p w he stopsign hmem
    cases he
    have hjoined := henter p w rfl (Server.readsStop_iff.mpr ⟨stopsign, hmem⟩)
    cases hs with
    | handle hruns hnext hs =>
      rw [set_member_self]
      exact (hI.entered_iff p hruns hnext hs hmem).mpr hjoined
  · intro hfresh p w m he hsome
    obtain ⟨config, hconfig⟩ := Option.isSome_iff_exists.mp hsome
    exact (hI.proposal_iff p (proposed_number hconfig)).mp (hfresh p w m config he hconfig)
  · intro hpropose p w m config he hconfig
    have hfounder := hpropose p w m he (by rw [hconfig]; rfl)
    exact (hI.proposal_iff p (proposed_number hconfig)).mpr hfounder

def scaledNodes (p : Nat) : Env := { nodes := [1, 2, 3, 4, 5], pid := p }

/-- A log without commands, whose StopSign names the configuration of number `id` with `n` nodes. -/
def sampleLog (id n : Nat) : ConfigLog :=
  { cmds := []
    stop := some { nextConfig := { configurationId := id, nodes := replicaList n }, metadata := none } }

/-- An instance with the log `L`, of which it has decided `d` entries, that follows `leader`. -/
def sampleReplica (L : ConfigLog) (d leader : Nat) : Replica :=
  { Replica.opened L d (.create []) with leader := some leader }

theorem sampleReplica_shows {id n d leader : Nat} (hd : d ≤ 1) :
    Shows (sampleReplica (sampleLog id n) d leader) (sampleLog id n) (.create []) :=
  Replica.shows_uncompacted rfl hd

/-- A node at the replica count `n`. -/
def scaledWorld (n : Int32) : World Replica :=
  { order := .sorted
    openStorage := fun _ => some (sampleReplica (sampleLog 3 5) 0 1)
    api := .ok { spec := some { replicas := some n } } }

/-- Three nodes that follow node 1. -/
def sampleStart : Cluster Replica ReplicaMsg where
  member p :=
    { server := .initial (scaledNodes p) (.error .client) (sampleReplica (sampleLog 2 4) 0 1)
        Database.empty
      conf := 0
      joined := 0 }
  proposals := []
  decided := [initialClusterConfig (.error .client)]

/-- Node 4 joins in the second configuration. As a leader it proposes number 2 again, and at the
StopSign that names configuration 3 it counts 2. -/
theorem late_joiner_run : ∃ tr, ∃ f : Cluster Replica ReplicaMsg,
    (machine scaledNodes : Machine _ (Event ReplicaMsg Replica)).Run tr f ∧
    (∃ t ∈ tr, ∃ w m config, t.event = .message 4 w m ∧
      proposed (scaledNodes 4) w (t.before.member 4).server m = some config ∧
      config.configurationId = 2 ∧ ∃ c ∈ t.before.decided, c.configurationId = 2) ∧
    ∃ t ∈ tr, ∃ w stopsign, t.event = .handle 4 w ∧
      .stopSign stopsign true ∈ (t.before.member 4).server.entriesRead ∧
      stopsign.nextConfig.configurationId = 3 ∧ (t.after.member 4).server.currentConfigId = 2 := by
  have hrun := Machine.Run.nil (M := (machine scaledNodes : Machine _ (Event ReplicaMsg Replica)))
    (s := sampleStart) ⟨rfl, ⟨.error .client, rfl⟩, fun p => ⟨_, _, _, false, _, rfl, rfl⟩⟩
  have hrun := hrun.snoc (.message (p := 1) (w := scaledWorld 4) (m := .debug "") rfl)
  have hrun := hrun.snoc (.decide { configurationId := 2, nodes := replicaList 4 } (by decide))
  have hrun := hrun.snoc (.start 4 1 (by decide) (Server.recover_false
    (.initial (scaledNodes 4) (scaledWorld 4).api (sampleReplica (sampleLog 3 5) 0 4) Database.empty)))
  have hrun := hrun.snoc (.message (p := 4) (w := scaledWorld 5) (m := .debug "") rfl)
  have hrun := hrun.snoc (.advance 1 (sampleReplica (sampleLog 2 4) 1 1))
  have hrun := hrun.snoc (.handle (p := 1) (w := scaledWorld 5) (L := sampleLog 2 4)
    ⟨_, sampleReplica_shows le_rfl⟩ (fun stopsign hstop => by cases hstop; rfl)
    (Server.handleDecidedEntries_swap (scaledNodes 1) (sampleReplica_shows le_rfl) Nat.one_pos rfl rfl
      rfl rfl))
  have hrun := hrun.snoc (.advance 1 (sampleReplica (sampleLog 3 5) 0 1))
  have hrun := hrun.snoc (.message (p := 1) (w := scaledWorld 5) (m := .debug "") rfl)
  have hrun := hrun.snoc (.decide { configurationId := 3, nodes := replicaList 5 } (by decide))
  have hrun := hrun.snoc (.advance 4 (sampleReplica (sampleLog 3 5) 1 1))
  have hrun := hrun.snoc (.handle (p := 4) (w := scaledWorld 5) (L := sampleLog 3 5)
    ⟨_, sampleReplica_shows le_rfl⟩ (fun stopsign hstop => by cases hstop; rfl)
    (Server.handleDecidedEntries_swap (scaledNodes 4) (sampleReplica_shows le_rfl) Nat.one_pos rfl rfl
      rfl rfl))
  refine ⟨_, _, hrun,
    ⟨_, List.mem_of_getElem? (i := 3) rfl, _, _, _, rfl, rfl, rfl, _,
      List.mem_cons_of_mem _ List.mem_cons_self, rfl⟩,
    _, List.mem_append_right _ List.mem_cons_self, _,
    { nextConfig := { configurationId := 3, nodes := replicaList 5 }, metadata := none }, rfl, ?_,
    rfl, rfl⟩
  exact Server.stopSign_mem_entriesRead (sampleReplica_shows le_rfl) Nat.one_pos rfl rfl

/-- Node 4 proposes a number that is taken, and enters configuration 3 with the number 2. -/
theorem numbers_collide : ∃ tr, ∃ f : Cluster Replica ReplicaMsg,
    (machine scaledNodes : Machine _ (Event ReplicaMsg Replica)).Run tr f ∧
    ¬(∀ t ∈ tr, Entered t) ∧ ¬∀ t ∈ tr, Fresh scaledNodes t := by
  obtain ⟨tr, f, hrun, ⟨t, ht, w, m, config, he, hconfig, hid, c, hc, hcid⟩,
    t', ht', w', stopsign, he', hmem, hnext, hcount⟩ := late_joiner_run
  refine ⟨tr, f, hrun, ?_, ?_⟩
  · intro hentered
    have hnumber := hentered t' ht' 4 w' he' stopsign hmem
    omega
  · intro hfresh
    have hlt := hfresh t ht 4 w m config he hconfig c hc
    omega

theorem numbering_iff_sample : ∃ tr, ∃ f : Cluster Replica ReplicaMsg,
    (machine scaledNodes : Machine _ (Event ReplicaMsg Replica)).Run tr f ∧
    (∃ t ∈ tr, ∃ w, t.event = .handle 4 w ∧ (t.after.member 4).server.currentConfigId = 2) ∧
    ((∀ t ∈ tr, Entered t ∧ Fresh scaledNodes t) ↔
      ∀ t ∈ tr, FoundersEnter t ∧ FoundersPropose scaledNodes t) := by
  obtain ⟨tr, f, hrun, -, t, ht, w, -, he, -, -, hcount⟩ := late_joiner_run
  exact ⟨tr, f, hrun, ⟨t, ht, w, he, hcount⟩, numbering_iff hrun⟩

end Numbering
end OmniKV
