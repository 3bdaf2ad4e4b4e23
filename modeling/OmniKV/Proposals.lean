import OmniKV.Lifetime

/-!
# Proposals

The debug arm: when a leader proposes a new configuration, and what comes of it.

`stop_sign_timeot` never holds a proposal back: it is only counted up while it is not a multiple of 5,
and starts at 0. So a leader proposes with each heartbeat for which the replica count differs from
`current_num_replicas`, which is the count the process was told last (`Counted`): not the size of its
configuration, and not the count last proposed. It dies of a count that is too large for a list of nodes
(`maxWords`), and of a proposal that is refused.
-/

namespace OmniKV
namespace Lifetime

variable {OP Msg Storage : Type} [OmniPaxos OP Msg Storage]

/-! ## The debug arm -/

def Leads (env : Env) (s : Server OP Msg) : Prop :=
  (OmniPaxos.getCurrentLeader s.omniPaxos).map Prod.fst = some env.pid

theorem checkReplicas_server (env : Env) (w : World Storage) {s : Server OP Msg}
    (hz : s.stopSignTimeot = 0) :
    (s.checkReplicas env w).1 = { s with currentNumReplicas := told w s.currentNumReplicas } := by
  unfold Server.checkReplicas told
  cases queryStatefulsetReplicas w.api with
  | error _ => simp
  | ok count =>
    by_cases hne : s.currentNumReplicas = count
    · simp [← hne]
    · simp only [hz, Nat.zero_mod, ne_eq, hne, not_false_eq_true, if_true]
      rw [← hz]
      split <;> rfl

/-- The configuration the debug arm proposes, if it proposes one. -/
theorem checkReplicas_proposal (env : Env) (w : World Storage) {s : Server OP Msg}
    (hz : s.stopSignTimeot = 0) {config : ClusterConfig} :
    (s.checkReplicas env w).2 = some config ↔
      ∃ count, Leads env s ∧ queryStatefulsetReplicas w.api = .ok count ∧
        s.currentNumReplicas ≠ count ∧
        config = ⟨(s.currentConfigId + 1) % 2 ^ 32, replicaList count⟩ := by
  unfold Server.checkReplicas Leads
  cases queryStatefulsetReplicas w.api with
  | error _ => simp
  | ok count =>
    by_cases hlead : (OmniPaxos.getCurrentLeader s.omniPaxos).map Prod.fst = some env.pid
    · by_cases hne : s.currentNumReplicas = count
      · simp [hlead, hne]
      · simp [hlead, hne, Ne.symm hne, hz, eq_comm]
    · by_cases hne : s.currentNumReplicas = count <;> simp [hlead, hne]

/-! ## The count -/

/-- The count and the timeout are as before. -/
def SameCount (s s' : Server OP Msg) : Prop :=
  s'.currentNumReplicas = s.currentNumReplicas ∧ s'.stopSignTimeot = s.stopSignTimeot

theorem applyEntry_sameCount {env : Env} {w : World Storage} {s s' : Server OP Msg} {e : LogEntry}
    (h : s.applyEntry env w e = .ok s') : SameCount s s' := by
  cases hstop : e.isStop with
  | false =>
    rw [Server.applyEntry_eq_writes env w s hstop] at h
    cases h
    exact ⟨rfl, rfl⟩
  | true =>
    cases e with
    | stopSign stopsign decided =>
      cases decided with
      | true =>
        obtain ⟨storage, op, -, -, rfl⟩ := Server.applyStopSign_ok h
        exact ⟨rfl, rfl⟩
      | false => cases hstop
    | _ => cases hstop

theorem handleDecidedEntries_sameCount {env : Env} {w : World Storage} {s s' : Server OP Msg}
    (h : s.handleDecidedEntries env w = .ok s') : SameCount s s' := by
  refine Server.handleDecidedEntries_rel (R := SameCount) (fun _ => ⟨rfl, rfl⟩) ?_
    (fun _ _ _ => applyEntry_sameCount) (fun _ _ => ⟨rfl, rfl⟩) (fun s d => ?_) h
  · rintro s s' s'' ⟨hcount, htimeot⟩ ⟨hcount', htimeot'⟩
    exact ⟨hcount'.trans hcount, htimeot'.trans htimeot⟩
  · unfold Server.finishDecided
    split <;> exact ⟨rfl, rfl⟩

theorem handleMsg_count {env : Env} {w : World Storage} {s s' : Server OP Msg} {m : Message Msg}
    (hz : s.stopSignTimeot = 0) (h : s.handleMsg env w m = .ok s') :
    s'.stopSignTimeot = 0 ∧ s'.currentNumReplicas = observed w s.currentNumReplicas m := by
  cases Server.handleMsg_cases h with
  | quiet _ | propose _ _ _ =>
    rw [checkReplicas_server env w hz]
    exact ⟨hz, rfl⟩
  | @append cmd op hcmd _ =>
    cases cmd with
    | get key => exact absurd rfl (hcmd key)
    | put _ | delete _ => exact ⟨hz, rfl⟩
  | get _ | omniPaxosMsg _ | stateCatchup _ | reconnected _ | leads _ => exact ⟨hz, rfl⟩

/-- The count a process works with is the one it was told last, and no proposal is held back. -/
structure Counted (b : Process OP Msg) : Prop where
  timeot : b.server.stopSignTimeot = 0
  count : b.server.currentNumReplicas = b.seen
  queried : ∃ api, queryStatefulsetReplicas api = .ok b.seen

theorem queried_initial (api : Except QueryError StatefulSet) :
    ∃ api', queryStatefulsetReplicas api' = .ok (initialNumReplicas api) := by
  have hthree : ∃ api', queryStatefulsetReplicas api' = .ok 3 := ⟨.ok ⟨some ⟨some 3⟩⟩, rfl⟩
  unfold initialNumReplicas
  split
  · rename_i replicas hquery
    split
    · exact ⟨api, hquery⟩
    · exact hthree
  · exact hthree

theorem queried_observed (w : World Storage) (m : Message Msg) {seen : Nat}
    (h : ∃ api, queryStatefulsetReplicas api = .ok seen) :
    ∃ api, queryStatefulsetReplicas api = .ok (observed w seen m) := by
  cases m with
  | debug text =>
    show ∃ api, queryStatefulsetReplicas api = .ok (told w seen)
    unfold told
    split
    · rename_i count hquery
      exact ⟨w.api, hquery⟩
    · exact h
  | _ => exact h

variable [OPMessage Msg] {env : Env}

theorem Counted.advance {b : Process OP Msg} {e : Loop.Event Msg Storage} {l : Loop OP Msg}
    (h : Counted b) (hs : Loop.Step env b.loop e l) : Counted (b.advance e l) := by
  cases hs with
  | process _ hmsg =>
    obtain ⟨htimeot, hcount⟩ := handleMsg_count h.timeot hmsg
    rw [h.count] at hcount
    exact ⟨htimeot, hcount, queried_observed _ _ h.queried⟩
  | apply _ hdecided =>
    obtain ⟨hcount, htimeot⟩ := handleDecidedEntries_sameCount hdecided
    exact ⟨htimeot.trans h.timeot, hcount.trans h.count, h.queried⟩
  | heartbeat _ =>
    refine ⟨?_, ?_, h.queried⟩
    · simpa [Process.advance, Process.server, Server.debugHeartbeat, Server.sendAll_eq] using
        h.timeot
    · simpa [Process.advance, Process.server, Server.debugHeartbeat, Server.sendAll_eq] using
        h.count
  | receive | wake _ | drain _ | send _ | sent _ | tick _ => exact ⟨h.timeot, h.count, h.queried⟩

theorem Counted.step {n n' : Option (Process OP Msg)} {e : Event Msg Storage}
    (h : ∀ b ∈ n, Counted b) (hs : Step env n e n') : ∀ b ∈ n', Counted b := by
  intro b hb
  cases hs with
  | start hrecover =>
    cases hb
    rw [Server.recover_ok hrecover]
    exact ⟨rfl, rfl, queried_initial _⟩
  | run hs =>
    cases hb
    exact (h _ rfl).advance hs
  | panic _ _ => cases hb
  | kill => cases hb

/-! ## Proposals accepted -/

section Transitions

variable (t : Machine.Transition (Option (Process OP Msg)) (Event Msg Storage))

/-- The `expect` on `reconfigure` does not fire. -/
def ProposalAccepted : Prop := ∀ w m, t.event ≠ .panic w m .reconfigureRefused

/-- A leader is told a new replica count only when it can be proposed: no StopSign is in the log, the
count is at least two and the next configuration number, cut to 32 bits, is not zero. With a count
that no vector can hold the leader does not come to its call. -/
def ProposalAdmitted (env : Env) (holds : OP → Prop) : Prop :=
  ∀ w text b count, handled t.event = some (w, .debug text) → t.before = some b →
    Leads env b.server → queryStatefulsetReplicas w.api = .ok count → count ≠ b.seen →
    count ≤ maxWords →
    ¬holds b.server.omniPaxos ∧ 2 ≤ count ∧ (b.server.currentConfigId + 1) % 2 ^ 32 ≠ 0

/-- The debug arm calls `reconfigure` with the nodes up to `count`, and goes on with the instance it
returns. -/
def Proposes (env : Env) (w : World Storage) (count : Nat) (s s' : Server OP Msg) : Prop :=
  ∃ config, (s.checkReplicas env w).2 = some config ∧ config.nodes = replicaList count ∧
    OmniPaxos.reconfigure s.omniPaxos config none = some s'.omniPaxos

/-- A leader with no StopSign in its log that is told a replica count other than the size of its
configuration proposes that count, unless the timeout holds it back. -/
def ScaleProposed (env : Env) (holds : OP → Prop) : Prop :=
  ∀ w text b count, handled t.event = some (w, .debug text) → t.before = some b →
    Leads env b.server → ¬holds b.server.omniPaxos →
    queryStatefulsetReplicas w.api = .ok count → count ≠ b.nodes.length →
    b.server.stopSignTimeot % 5 = 0 →
    ∃ a, t.after = some a ∧ Proposes env w count b.server a.server

/-- Such a leader was last told another count, and the one it is told now can be proposed: a vector can
hold the nodes, they are at least two and the next configuration number is not zero. -/
def ScaleNews (env : Env) (holds : OP → Prop) : Prop :=
  ∀ w text b count, handled t.event = some (w, .debug text) → t.before = some b →
    Leads env b.server → ¬holds b.server.omniPaxos →
    queryStatefulsetReplicas w.api = .ok count → count ≠ b.nodes.length →
    b.seen ≠ count ∧ count ≤ maxWords ∧ 2 ≤ count ∧ (b.server.currentConfigId + 1) % 2 ^ 32 ≠ 0

end Transitions

variable {holds : OP → Prop}

omit [OPMessage Msg] in
/-- The `expect` fires where the debug arm proposes what the library refuses. -/
theorem handleMsg_reconfigureRefused {w : World Storage} {s : Server OP Msg} {m : Message Msg} :
    s.handleMsg env w m = .error .reconfigureRefused ↔
      ∃ text config, m = .debug text ∧ (s.checkReplicas env w).2 = some config ∧
        config.nodes.length ≤ maxWords ∧ OmniPaxos.reconfigure s.omniPaxos config none = none := by
  constructor
  · intro h
    cases Server.handleMsg_panics h with
    | propose hproposal hfits hrefused => exact ⟨_, _, rfl, hproposal, hfits, hrefused⟩
  · rintro ⟨text, config, rfl, hproposal, hfits, hrefused⟩
    rw [Server.handleMsg_proposal text hproposal, if_pos hfits]
    simp only [hrefused]

theorem proposalAccepted_iff (laws : StopLaws holds) {n n' : Option (Process OP Msg)}
    {e : Event Msg Storage} (hI : ∀ b ∈ n, Counted b) (hs : Step env n e n') :
    ProposalAccepted ⟨n, e, n'⟩ ↔ ProposalAdmitted ⟨n, e, n'⟩ env holds := by
  constructor
  · intro h w text b count he hb hlead hquery hne hfits
    have hcounted := hI b hb
    have hproposal := (checkReplicas_proposal env w hcounted.timeot).mpr
      ⟨count, hlead, hquery, by rw [hcounted.count]; exact hne.symm, rfl⟩
    have hlen : (replicaList count).length = count := List.length_range'
    by_contra hadmitted
    rw [← hlen] at hadmitted hfits
    have hrefused := (laws.reconfigure_isSome b.server.omniPaxos
      ⟨(b.server.currentConfigId + 1) % 2 ^ 32, replicaList count⟩).not.mpr hadmitted
    have hpanic := handleMsg_reconfigureRefused.mpr ⟨text, _, rfl, hproposal, hfits,
      Option.eq_none_iff_forall_ne_some.mpr fun op hop => hrefused ⟨op, hop⟩⟩
    cases hs.handles he hb with
    | returns hmsg =>
      rw [hpanic] at hmsg
      cases hmsg
    | panics hmsg =>
      rw [hpanic] at hmsg
      cases hmsg
      exact h _ _ rfl
  · rintro h w m rfl
    cases hs with
    | panic _ hmsg =>
      rename_i b rest _
      have hcounted := hI b rfl
      obtain ⟨text, config, hm, hproposal, hfits, hrefused⟩ := handleMsg_reconfigureRefused.mp hmsg
      obtain ⟨count, hlead, hquery, hne, rfl⟩ :=
        (checkReplicas_proposal env w hcounted.timeot).mp hproposal
      have hlen : (replicaList count).length = count := List.length_range'
      rw [hcounted.count] at hne
      obtain ⟨hfree, htwo, hid⟩ := h w text b count (by rw [handled, hm]) rfl hlead hquery hne.symm
        (hlen ▸ hfits)
      obtain ⟨op, hop⟩ := (laws.reconfigure_isSome b.server.omniPaxos
        ⟨(b.server.currentConfigId + 1) % 2 ^ 32, replicaList count⟩).mpr
        ⟨hfree, hlen.symm ▸ htwo, hid⟩
      rw [hrefused] at hop
      cases hop

/-- In every life of a node, no proposal makes its process panic exactly when every leader that is told
a new replica count can propose it. -/
theorem proposals_accepted_iff (laws : StopLaws holds)
    {tr : List (Machine.Transition (Option (Process OP Msg)) (Event Msg Storage))}
    {n : Option (Process OP Msg)} (hrun : (machine env).Run tr n) :
    (∀ t ∈ tr, ProposalAccepted t) ↔ ∀ t ∈ tr, ProposalAdmitted t env holds :=
  hrun.forall_iff (H := fun _ => True) (I := fun n => ∀ b ∈ n, Counted b)
    (fun _ hn b hb => by rw [hn] at hb; cases hb) (fun _ _ _ hI hs _ _ => Counted.step hI hs)
    (fun _ _ _ hI hs _ => proposalAccepted_iff laws hI hs) (fun _ _ => trivial)

/-! ## Scale changes proposed -/

omit [OPMessage Msg] in
/-- A leader proposes a count that is news to it and that vector and library take. -/
theorem proposes_iff (laws : StopLaws holds) {w : World Storage} {b : Process OP Msg} {count : Nat}
    (text : String) (hcounted : Counted b) (hlead : Leads env b.server)
    (hfree : ¬holds b.server.omniPaxos) (hquery : queryStatefulsetReplicas w.api = .ok count) :
    (∃ s', b.server.handleMsg env w (.debug text) = .ok s' ∧ Proposes env w count b.server s') ↔
      b.seen ≠ count ∧ count ≤ maxWords ∧ 2 ≤ count ∧
        (b.server.currentConfigId + 1) % 2 ^ 32 ≠ 0 := by
  have hlen : (replicaList count).length = count := List.length_range'
  constructor
  · rintro ⟨s', hmsg, config, hproposal, -, hreconfigure⟩
    rw [Server.handleMsg_proposal text hproposal] at hmsg
    obtain ⟨count', -, hquery', hne, rfl⟩ :=
      (checkReplicas_proposal env w hcounted.timeot).mp hproposal
    rw [hquery] at hquery'
    cases hquery'
    obtain ⟨-, htwo, hid⟩ := (laws.reconfigure_isSome _ _).mp ⟨_, hreconfigure⟩
    have hfits : (replicaList count).length ≤ maxWords := by
      by_contra hover
      rw [if_neg hover] at hmsg
      cases hmsg
    rw [hlen] at htwo hfits
    rw [hcounted.count] at hne
    exact ⟨hne, hfits, htwo, hid⟩
  · rintro ⟨hne, hfits, htwo, hid⟩
    rw [← hcounted.count] at hne
    have hproposal := (checkReplicas_proposal env w hcounted.timeot).mpr
      ⟨count, hlead, hquery, hne, rfl⟩
    rw [← hlen] at htwo hfits
    obtain ⟨op, hop⟩ := (laws.reconfigure_isSome b.server.omniPaxos
      ⟨(b.server.currentConfigId + 1) % 2 ^ 32, replicaList count⟩).mpr ⟨hfree, htwo, hid⟩
    refine ⟨{ (b.server.checkReplicas env w).1 with omniPaxos := op }, ?_, _, hproposal, rfl, hop⟩
    rw [Server.handleMsg_proposal text hproposal, if_pos hfits]
    simp only [hop]

omit [OPMessage Msg] in
theorem Handles.goesOn_iff {b : Process OP Msg} {w : World Storage} {m : Message Msg}
    {e : Event Msg Storage} {n' : Option (Process OP Msg)} {P : Server OP Msg → Prop}
    (h : Handles env b w m e n') :
    (∃ a, n' = some a ∧ P a.server) ↔ ∃ s', b.server.handleMsg env w m = .ok s' ∧ P s' := by
  cases h with
  | returns hmsg => simp [hmsg]
  | panics hmsg => simp [hmsg]

theorem scaleProposed_iff (laws : StopLaws holds) {n n' : Option (Process OP Msg)}
    {e : Event Msg Storage} (hI : ∀ b ∈ n, Counted b) (hs : Step env n e n') :
    ScaleProposed ⟨n, e, n'⟩ env holds ↔ ScaleNews ⟨n, e, n'⟩ env holds := by
  constructor
  · intro h w text b count he hb hlead hfree hquery hne
    have hcounted := hI b hb
    have hproposed := h w text b count he hb hlead hfree hquery hne (by rw [hcounted.timeot])
    exact (proposes_iff laws text hcounted hlead hfree hquery).mp
      ((hs.handles he hb).goesOn_iff.mp hproposed)
  · intro h w text b count he hb hlead hfree hquery hne _
    exact (hs.handles he hb).goesOn_iff.mpr ((proposes_iff laws text (hI b hb) hlead hfree hquery).mpr
      (h w text b count he hb hlead hfree hquery hne))

/-- In every life of a node, each scale change a leader is told is proposed exactly when it is news to
the process and can be proposed; and in every state reached, a leader would propose each scale change
that can be proposed exactly when `current_num_replicas` is the size of its configuration, or a number
of nodes that cannot be proposed. -/
theorem scale_change_proposed_iff (laws : StopLaws holds)
    {tr : List (Machine.Transition (Option (Process OP Msg)) (Event Msg Storage))}
    {n : Option (Process OP Msg)} (hrun : (machine env).Run tr n) :
    ((∀ t ∈ tr, ScaleProposed t env holds) ↔ ∀ t ∈ tr, ScaleNews t env holds) ∧
    ∀ b ∈ n, Leads env b.server → ¬holds b.server.omniPaxos →
      (b.server.currentConfigId + 1) % 2 ^ 32 ≠ 0 →
      ((∀ (w : World Storage) text count, queryStatefulsetReplicas w.api = .ok count →
          count ≠ b.nodes.length → count ≤ maxWords → 2 ≤ count →
          ∃ s', b.server.handleMsg env w (.debug text) = .ok s' ∧
            Proposes env w count b.server s') ↔
        b.server.currentNumReplicas = b.nodes.length ∨ maxWords < b.server.currentNumReplicas ∨
          b.server.currentNumReplicas < 2) := by
  have hinit : ∀ n : Option (Process OP Msg), n = none → ∀ b ∈ n, Counted b := by
    rintro n rfl b hb
    cases hb
  constructor
  · exact hrun.forall_iff (H := fun _ => True) (I := fun n => ∀ b ∈ n, Counted b) hinit
      (fun _ _ _ hI hs _ _ => Counted.step hI hs) (fun _ _ _ hI hs _ => scaleProposed_iff laws hI hs)
      (fun _ _ => trivial)
  · intro b hb hlead hfree hid
    have hcounted := hrun.invariant' (I := fun n => ∀ b ∈ n, Counted b) hinit
      (fun _ _ _ hI hs => Counted.step hI hs) b hb
    rw [hcounted.count]
    constructor
    · intro h
      obtain ⟨api, hquery⟩ := hcounted.queried
      by_contra hnot
      push Not at hnot
      obtain ⟨hne, hfits, htwo⟩ := hnot
      -- a query that answers the count already known is the one that goes by unnoticed
      have hproposed := h ⟨.sorted, fun _ => none, api⟩ "" b.seen hquery hne hfits htwo
      exact ((proposes_iff laws "" hcounted hlead hfree hquery).mp hproposed).1 rfl
    · intro h w text count hquery hne hfits htwo
      refine (proposes_iff laws text hcounted hlead hfree hquery).mpr ⟨?_, hfits, htwo, hid⟩
      rintro rfl
      rcases h with h | h | h
      · exact hne h
      · omega
      · omega

/-! ## Runs of an acceptor -/

/-- The API answers `count` replicas. -/
def scaledTo (count : Int32) : World Acceptor :=
  { Acceptor.world with api := .ok ⟨some ⟨some count⟩⟩ }

/-- A leader is told of a fourth node and proposes it. -/
theorem scaling_run : ∃ tr n, AcceptorRun tr n ∧
    (∃ b ∈ n, b.server.omniPaxos.log.stop = some ⟨⟨2, [1, 2, 3, 4]⟩, none⟩) ∧
    (∀ t ∈ tr, ProposalAdmitted t sampleEnv Acceptor.holds) ∧
    ∀ t ∈ tr, ScaleNews t sampleEnv Acceptor.holds := by
  have hrun : AcceptorRun _ _ := .nil rfl
  have hrun := hrun.snoc acceptor_starts
  have hrun := hrun.snoc (.run (.receive (m := ⟨0, .omniPaxosMsg (.leader 1 1)⟩)))
  have hrun := hrun.snoc (.run (.receive (m := ⟨0, .debug "Heartbeat from node 2"⟩)))
  have hrun := hrun.snoc (.run (.wake rfl))
  have hrun := hrun.snoc (.run (.process (w := Acceptor.world) rfl rfl))
  have hrun := hrun.snoc (.run (.process (w := scaledTo 4) rfl rfl))
  refine ⟨_, _, hrun, ⟨_, rfl, rfl⟩, ?_, ?_⟩
  · intro t ht w text b count he hb hlead hquery hne _
    simp only [List.mem_append, List.mem_singleton, List.not_mem_nil, false_or] at ht
    rcases ht with ((((rfl | rfl) | rfl) | rfl) | rfl) | rfl
    · cases he
    · cases he
    · cases he
    · cases he
    · cases he
    · cases he
      cases hb
      cases hquery
      exact ⟨Bool.false_ne_true, by decide, by decide⟩
  · intro t ht w text b count he hb hlead hfree hquery hne
    simp only [List.mem_append, List.mem_singleton, List.not_mem_nil, false_or] at ht
    rcases ht with ((((rfl | rfl) | rfl) | rfl) | rfl) | rfl
    · cases he
    · cases he
    · cases he
    · cases he
    · cases he
    · cases he
      cases hb
      cases hquery
      exact ⟨hne.symm, by decide, by decide, by decide⟩

theorem proposals_accepted_sample : ∃ tr n, AcceptorRun tr n ∧
    (∃ b ∈ n, b.server.omniPaxos.log.stop = some ⟨⟨2, [1, 2, 3, 4]⟩, none⟩) ∧
    ∀ t ∈ tr, ProposalAccepted t := by
  obtain ⟨tr, n, hrun, hstop, hadmitted, -⟩ := scaling_run
  exact ⟨tr, n, hrun, hstop, (proposals_accepted_iff Acceptor.stopLaws hrun).mpr hadmitted⟩

theorem scale_change_proposed_sample : ∃ tr n, AcceptorRun tr n ∧
    (∃ b ∈ n, b.server.omniPaxos.log.stop = some ⟨⟨2, [1, 2, 3, 4]⟩, none⟩) ∧
    ∀ t ∈ tr, ScaleProposed t sampleEnv Acceptor.holds := by
  obtain ⟨tr, n, hrun, hstop, -, hnews⟩ := scaling_run
  exact ⟨tr, n, hrun, hstop, (scale_change_proposed_iff Acceptor.stopLaws hrun).1.mpr hnews⟩

/-- A leader proposes a fourth node, and then a fifth before the first proposal is decided. -/
theorem second_proposal_kills : ∃ tr, AcceptorRun tr none ∧ ∃ t ∈ tr, ¬ProposalAccepted t := by
  have hrun : AcceptorRun _ _ := .nil rfl
  have hrun := hrun.snoc acceptor_starts
  have hrun := hrun.snoc (.run (.receive (m := ⟨0, .omniPaxosMsg (.leader 1 1)⟩)))
  have hrun := hrun.snoc (.run (.receive (m := ⟨0, .debug "Heartbeat from node 2"⟩)))
  have hrun := hrun.snoc (.run (.receive (m := ⟨0, .debug "Heartbeat from node 3"⟩)))
  have hrun := hrun.snoc (.run (.wake rfl))
  have hrun := hrun.snoc (.run (.process (w := Acceptor.world) rfl rfl))
  have hrun := hrun.snoc (.run (.process (w := scaledTo 4) rfl rfl))
  have hrun := hrun.snoc (.panic (w := scaledTo 5) (p := .reconfigureRefused) rfl rfl)
  exact ⟨_, hrun, _, List.mem_of_getElem? (i := 7) rfl, fun h => h _ _ rfl⟩

/-- A follower is told of a fourth node, and then leads. -/
theorem scale_change_forgotten : ∃ tr n, AcceptorRun tr n ∧
    (∃ t ∈ tr, ¬ScaleProposed t sampleEnv Acceptor.holds) ∧
    ∃ b ∈ n, Leads sampleEnv b.server ∧ ¬Acceptor.holds b.server.omniPaxos ∧
      b.server.currentNumReplicas = 4 ∧ b.nodes = [1, 2, 3] := by
  have hrun : AcceptorRun _ _ := .nil rfl
  have hrun := hrun.snoc acceptor_starts
  have hrun := hrun.snoc (.run (.receive (m := ⟨0, .omniPaxosMsg (.leader 1 2)⟩)))
  have hrun := hrun.snoc (.run (.receive (m := ⟨0, .debug "Heartbeat from node 2"⟩)))
  have hrun := hrun.snoc (.run (.receive (m := ⟨0, .omniPaxosMsg (.leader 1 1)⟩)))
  have hrun := hrun.snoc (.run (.receive (m := ⟨0, .debug "Heartbeat from node 3"⟩)))
  have hrun := hrun.snoc (.run (.wake rfl))
  have hrun := hrun.snoc (.run (.process (w := Acceptor.world) rfl rfl))
  have hrun := hrun.snoc (.run (.process (w := scaledTo 4) rfl rfl))
  have hrun := hrun.snoc (.run (.process (w := Acceptor.world) rfl rfl))
  have hrun := hrun.snoc (.run (.process (w := scaledTo 4) rfl rfl))
  refine ⟨_, _, hrun, ⟨_, List.mem_of_getElem? (i := 9) rfl, ?_⟩, _, rfl, rfl, Bool.false_ne_true,
    rfl, rfl⟩
  intro h
  obtain ⟨a, -, config, hproposal, -⟩ := h (scaledTo 4) _ _ 4 rfl rfl rfl Bool.false_ne_true rfl
    (Nat.succ_ne_self 3) rfl
  cases hproposal

end Lifetime
end OmniKV
