import OmniKV.Cluster

/-!
# Crashes

A cluster of event loops whose processes are killed and start again.

A process can be killed wherever another task or the operating system can get in: between any two steps
of its loop, between any two writes of `handle_decided_entries`, between two sends of the state transfer
there, and between two writes of `handle_kv`. A panic is a kill. The database on disk stays, and what has
been sent; the buffer of received messages, the rest of a batch and all counters are gone, and the next
process starts with an instance of the first configuration.

Each such step is one of a node of `Integrity`. So all values of all databases, answers and state
transfers come from decided prefixes (`loop_values_decided`).
-/

namespace OmniKV
namespace Crashes

open Cluster (Hosts Refines transfers waiting mem_link_of_transfers mem_link_of_waiting)
open Refinement (Keeps Outlines label)
open OmniPaxos (getDecidedIdx)

variable {OP Msg Storage : Type} [OmniPaxos OP Msg Storage]

inductive Incident (Msg Storage : Type) where
  | event (e : Loop.Event Msg Storage)
  | killed (sends : List (Nat × Message Msg))
  | killedCatchup (kvList : List (String × String))

/-- What a kill leaves on disk. The messages of a kill are those that a call of
`handle_decided_entries` has sent without returning. -/
inductive Leaves (env : Env) (l : Loop OP Msg) : Incident Msg Storage → Database → Prop where
  | between : Leaves env l (.killed []) l.server.database
  | applying {w : World Storage} {db : Database} {sends : List (Nat × Message Msg)} :
      l.phase = .applying → l.server.Killed env w db sends → Leaves env l (.killed sends) db
  | catchup {w : World Storage} {origin : Nat} {kvList : List (String × String)}
      {rest : List (Envelope Msg)} (k : Nat) :
      l.phase = .processing (⟨origin, .stateCatchup kvList⟩ :: rest) →
      Leaves env l (.killedCatchup kvList)
        (((Database.kvWrites w.order l.server.database kvList).take k).foldl Database.write
          l.server.database)

variable [OPMessage Msg]

inductive Step (env : Env) : Loop OP Msg → Incident Msg Storage → Loop OP Msg → Prop where
  | event {l l' : Loop OP Msg} {e : Loop.Event Msg Storage} : Loop.Step env l e l' →
      Step env l (.event e) l'
  | killed {l l' : Loop OP Msg} {i : Incident Msg Storage} :
      (Loop.machine env : Machine (Loop OP Msg) (Loop.Event Msg Storage)).init l' →
      Leaves env l i l'.server.database → Step env l i l'

/-- The messages to the other processes that are sent in a step. -/
def sends (t : Machine.Transition (Loop OP Msg) (Incident Msg Storage)) : List (Nat × Message Msg) :=
  match t.event with
  | .event e => Traffic.sends ⟨t.before, e, t.after⟩
  | .killed sends => sends.filter fun x => x.1 ≠ 0
  | .killedCatchup _ => []

def takes : Incident Msg Storage → Option (Message Msg)
  | .event e => Traffic.takes e
  | _ => none

def cluster (envs : Nat → Env) :
    Net.Spec Nat (Loop OP Msg) (Incident Msg Storage) (Message Msg) where
  machine p :=
    { init := (Loop.machine (envs p) : Machine (Loop OP Msg) (Loop.Event Msg Storage)).init
      step := Step (envs p) }
  sends := sends
  takes := takes

/-! ## Steps -/

variable {envs : Nat → Env} {logs : Nat → ConfigLog} {env : Env} {l l' : Loop OP Msg}
  {n : Node OP Msg} {net net' : Net Nat (Loop OP Msg) (Message Msg)}
  {nodes : Net Nat (Node OP Msg) (List (String × String))}

/-- What an incident of a process is to its node. -/
def incident : Incident Msg Storage → Integrity.Incident Msg Storage
  | .event e => .event (label e)
  | .killed sends => .event (.restart sends)
  | .killedCatchup kvList => .killedCatchup kvList

/-- The node of a process that is killed starts again as well. -/
theorem exists_restarted (h : Outlines l n) {i : Incident Msg Storage}
    (hleaves : Leaves env l i l'.server.database)
    (hinit : (Loop.machine env : Machine (Loop OP Msg) (Loop.Event Msg Storage)).init l')
    (hruns : Runs l'.server.omniPaxos (logs 0)) :
    ∃ n', Integrity.Step env logs n (incident i) n' ∧ Outlines l' n' := by
  obtain ⟨n', ⟨api, op, hop, rfl⟩, hR⟩ := Refinement.outlines_init hinit hruns
  have hrecover := Server.recover_false (Server.initial env api op l'.server.database)
  obtain ⟨server, conf, applied, boot⟩ := n
  obtain ⟨⟨count, timeot, rfl⟩, -⟩ := h
  refine ⟨_, ?_, hR⟩
  generalize l'.server.database = db at hleaves hrecover
  cases hleaves with
  | between =>
    let w : World Storage := { order := .sorted, openStorage := fun _ => none, api := .error .client }
    exact .event (.restart (w := w) (.writing 0) hrecover hop rfl)
  | applying _ hkilled => exact .event (.restart hkilled.outline hrecover hop rfl)
  | catchup k _ => exact .killedCatchup k rfl hrecover hop

omit [OPMessage Msg] in
theorem hosts_events : Hosts (Integrity.cluster envs logs : Net.Spec Nat (Node OP Msg)
    (Integrity.Incident Msg Storage) _) .event envs logs where
  step _ _ _ _ h := .event h
  takes e := by cases e <;> rfl
  sends n e n' h := by
    cases e with
    | restart sends => exact absurd rfl (h sends)
    | _ => rfl

/-- What the consensus library promises about a step: a process that starts again has an instance of
the first configuration. -/
def Kept (logs : Nat → ConfigLog) (t : Machine.Transition (Net Nat (Loop OP Msg) (Message Msg))
    (Net.Event Nat (Incident Msg Storage))) : Prop :=
  match t.event.event with
  | .event e => Keeps logs ⟨t.before.party t.event.party, e, t.after.party t.event.party⟩
  | _ => Runs (t.after.party t.event.party).server.omniPaxos (logs 0)

/-- A kill outside of a state transfer: the node takes no message, and the transfers that waited stay on
its links. -/
theorem refines_killed (h : Refines net nodes) {p : Nat} {sent : List (Nat × Message Msg)}
    (hleaves : Leaves (envs p) (net.party p) (.killed sent : Incident Msg Storage)
      l'.server.database)
    (hinit : (Loop.machine (envs p) : Machine (Loop OP Msg) (Loop.Event Msg Storage)).init l')
    (hruns : Runs l'.server.omniPaxos (logs 0)) :
    ∃ e' nodes', (Net.machine (Integrity.cluster envs logs)).step nodes e' nodes' ∧
      (e'.party = p ∧ e'.event = incident (.killed sent)) ∧
      Refines (net.move p l' (sent.filter fun x => x.1 ≠ 0)) nodes' := by
  obtain ⟨n', hn', hp⟩ := exists_restarted (h.party p) hleaves hinit hruns
  refine ⟨_, _, .own rfl hn', ⟨rfl, rfl⟩, ?_⟩
  refine .move net nodes h.party hp (Cluster.coming_update ?_ fun r _ => h.coming r)
    (Cluster.transfers_sublist sent)
  rw [Cluster.waiting_init hinit]
  exact (h.coming p).forget

/-- A kill in the middle of a state transfer: the node takes it off its link. -/
theorem refines_killedCatchup (h : Refines net nodes) {p : Nat} {kvList : List (String × String)}
    (hleaves : Leaves (envs p) (net.party p) (.killedCatchup kvList : Incident Msg Storage)
      l'.server.database)
    (hinit : (Loop.machine (envs p) : Machine (Loop OP Msg) (Loop.Event Msg Storage)).init l')
    (hruns : Runs l'.server.omniPaxos (logs 0)) :
    ∃ e' nodes', (Net.machine (Integrity.cluster envs logs)).step nodes e' nodes' ∧
      (e'.party = p ∧ e'.event = incident (.killedCatchup kvList)) ∧
      Refines (net.move p l' []) nodes' := by
  obtain ⟨n', hn', hp⟩ := exists_restarted (h.party p) hleaves hinit hruns
  have hwaiting : ∃ more, waiting (net.party p) = kvList :: more := by
    generalize l'.server.database = db at hleaves
    cases hleaves with
    | @catchup w origin _ rest k hphase =>
      refine ⟨transfers ((rest ++ (net.party p).received).map Envelope.body), ?_⟩
      rw [waiting, Routing.buffered, hphase]
      rfl
  obtain ⟨more, hwaiting⟩ := hwaiting
  obtain ⟨q, ahead, behind, hlink, hrest, hothers⟩ := h.taken hwaiting
  refine ⟨_, _, .deliver rfl hlink hn', ⟨rfl, rfl⟩, ?_⟩
  refine .move net (nodes.setLink q p (ahead ++ behind)) h.party hp
    (Cluster.coming_update ?_ hothers) fun r => List.nil_sublist _
  rw [Cluster.waiting_init hinit]
  exact hrest.forget

theorem refines_step (h : Refines net nodes) {e : Net.Event Nat (Incident Msg Storage)}
    (hs : (Net.machine (cluster envs)).step net e net') (hkept : Kept logs ⟨net, e, net'⟩) :
    ∃ e' nodes', (Net.machine (Integrity.cluster envs logs)).step nodes e' nodes' ∧
      (e'.party = e.party ∧ e'.event = incident e.event) ∧ Refines net' nodes' := by
  cases hs with
  | @own p i l' htakes hs =>
    rw [Kept, Net.move_party_self] at hkept
    cases hs with
    | event hs =>
      have hstep : Net.Step (Traffic.cluster envs) net ⟨p, _, 0⟩ _ := .own htakes hs
      exact h.step hosts_events hstep (by rwa [Net.move_party_self])
    | killed hinit hleaves =>
      cases i with
      | event e => cases hleaves
      | killed sent => exact refines_killed h hleaves hinit hkept
      | killedCatchup kvList => exact refines_killedCatchup h hleaves hinit hkept
  | @deliver p q i l' m ahead behind htakes hlink hs =>
    rw [Kept, Net.move_party_self] at hkept
    cases hs with
    | event hs =>
      have hstep : Net.Step (Traffic.cluster envs) net ⟨p, _, ahead.length⟩ _ :=
        .deliver htakes hlink hs
      exact h.step hosts_events hstep (by rwa [Net.move_party_self])
    | killed hinit hleaves =>
      cases i with
      | event e => cases hleaves
      | killed _ | killedCatchup _ => cases htakes

/-! ## Values -/

variable {tr : List (Machine.Transition (Net Nat (Loop OP Msg) (Message Msg))
  (Net.Event Nat (Incident Msg Storage)))}

/-- The value of `key` after a prefix that some process has decided by now. -/
def DecidedIn (logs : Nat → ConfigLog) (tr : List (Machine.Transition
      (Net Nat (Loop OP Msg) (Message Msg)) (Net.Event Nat (Incident Msg Storage))))
    (net : Net Nat (Loop OP Msg) (Message Msg)) (key : String) (value : Option String) : Prop :=
  ∃ visited, Machine.Visited tr net visited ∧ ∃ p d,
    d ≤ getDecidedIdx (visited.party p).server.omniPaxos ∧
      Integrity.valueAt logs (visited.party p).conf d key = value

omit [OPMessage Msg] in
/-- What a node has decided its process has. -/
theorem decidedIn_of_decided {tr' : List (Machine.Transition
      (Net Nat (Node OP Msg) (List (String × String))) (Net.Event Nat (Integrity.Incident Msg Storage)))}
    {E : Net.Event Nat (Incident Msg Storage) → Net.Event Nat (Integrity.Incident Msg Storage) → Prop}
    (hR : Refines net nodes) (hanswers : List.Forall₂ (Machine.Answers Refines E) tr tr')
    {key : String} {value : Option String} (h : Integrity.Decided logs tr' nodes key value) :
    DecidedIn logs tr net key value := by
  have hby : ∀ {net : Net Nat (Loop OP Msg) (Message Msg)}
      {nodes : Net Nat (Node OP Msg) (List (String × String))} {p : Nat}, Refines net nodes →
      Integrity.DecidedBy logs (nodes.party p) key value →
      ∃ p d, d ≤ getDecidedIdx (net.party p).server.omniPaxos ∧
        Integrity.valueAt logs (net.party p).conf d key = value := by
    intro net nodes p hR hby
    obtain ⟨d, hd, hvalue⟩ := hby
    obtain ⟨⟨count, timeot, hserver⟩, hconf⟩ := hR.party p
    rw [hserver, Server.outline_omniPaxos] at hd
    rw [hconf] at hvalue
    exact ⟨p, d, hd, hvalue⟩
  obtain ⟨visited', hvisited, p, hdecided⟩ := h
  cases hvisited with
  | last => exact ⟨net, .last, hby hR hdecided⟩
  | before ht' =>
    obtain ⟨t, ht, hanswer⟩ := Machine.answered_of_mem hanswers ht'
    exact ⟨t.before, .before ht, hby hanswer.before hdecided⟩

omit [OPMessage Msg] in
/-- What a node answers for, its process answers for. -/
theorem answered_within {V : String → Option String → Prop} (h : Refines net nodes)
    (hall : Integrity.AllHonest V logs nodes) {p : Nat} {key : String} {value : Option String}
    (hmem : (0, .apiResponse (.get key value)) ∈ (net.party p).server.network.sent) :
    V key value := by
  obtain ⟨⟨count, timeot, hserver⟩, -⟩ := h.party p
  refine (hall.party p).answers key value ?_
  rw [hserver, Server.outline_sent]
  exact List.mem_filter.mpr ⟨hmem, rfl⟩

theorem honest_run (hrun : (Net.machine (cluster envs)).Run tr net)
    (hkept : ∀ t ∈ tr, Kept logs t)
    (hruns : ∀ p, Runs ((Machine.start tr net).party p).server.omniPaxos (logs 0))
    (hempty : ∀ p, ((Machine.start tr net).party p).server.database = Database.empty) :
    ∃ nodes : Net Nat (Node OP Msg) (List (String × String)), Refines net nodes ∧
      Integrity.AllHonest (DecidedIn logs tr net) logs nodes := by
  obtain ⟨nodes₀, hinit, hlinks, hstart⟩ := Cluster.refines_init hrun.start_init.1 hrun.start_init.2
    hruns
  have hinit' : (Net.machine (Integrity.cluster envs logs)).init nodes₀ := by
    refine ⟨fun p => ?_, hlinks⟩
    have hp := hinit p
    rwa [hempty p] at hp
  obtain ⟨tr', nodes, hrun', hR, hanswers⟩ := hrun.lockstep
    (fun _ _ _ _ hR hs hC => refines_step hR hs hC) hinit' hstart hkept
  exact ⟨nodes, hR, (Integrity.allHonest_run hrun').mono fun _ _ => decidedIn_of_decided hR hanswers⟩

/-- In every run of event loops that start with empty databases, with kills anywhere: every key of every
database, every answer to a client, and every key of a state transfer on its way or in a buffer, which
lists no key twice, has a value that the key had after a prefix some process had decided by then. -/
theorem loop_values_decided (hrun : (Net.machine (cluster envs)).Run tr net)
    (hkept : ∀ t ∈ tr, Kept logs t)
    (hruns : ∀ p, Runs ((Machine.start tr net).party p).server.omniPaxos (logs 0))
    (hempty : ∀ p, ((Machine.start tr net).party p).server.database = Database.empty) :
    (∀ p key, DecidedIn logs tr net key ((net.party p).server.database.get key)) ∧
    (∀ p key value, (0, .apiResponse (.get key value)) ∈ (net.party p).server.network.sent →
      DecidedIn logs tr net key value) ∧
    (∀ q p, ∀ kvList ∈ transfers (net.link q p), (kvList.map Prod.fst).Nodup ∧ ∀ key,
      DecidedIn logs tr net key (HashMap.lastValue kvList key)) ∧
    ∀ p, ∀ kvList ∈ waiting (net.party p), (kvList.map Prod.fst).Nodup ∧ ∀ key,
      DecidedIn logs tr net key (HashMap.lastValue kvList key) := by
  obtain ⟨nodes, hR, hall⟩ := honest_run hrun hkept hruns hempty
  refine ⟨fun p key => ?_, fun p key value hmem => answered_within hR hall hmem,
    fun q p kvList hmem => ?_, fun p kvList hmem => ?_⟩
  · obtain ⟨⟨count, timeot, hserver⟩, -⟩ := hR.party p
    have hkey := (hall.party p).database key
    rwa [hserver] at hkey
  · have hlist := hall.link q p kvList (mem_link_of_transfers hR hmem)
    exact ⟨hlist.nodup, hlist.lastValue⟩
  · obtain ⟨q, hlink⟩ := mem_link_of_waiting hR hmem
    have hlist := hall.link q p kvList hlink
    exact ⟨hlist.nodup, hlist.lastValue⟩

/-! ## Two kills -/

def sampleProcess (p : Nat) (db : Database) : Loop Replica ReplicaMsg where
  server := .initial (sampleNodes p) (.error .client) (.opened (sampleLogs 0) 2 (.create [])) db
  phase := .select
  received := []
  conf := 0

theorem sampleProcess_init (p : Nat) (db : Database) : (Loop.machine (sampleNodes p) :
    Machine (Loop Replica ReplicaMsg) (Loop.Event ReplicaMsg Replica)).init (sampleProcess p db) :=
  ⟨.error .client, _, db, false, _, rfl, rfl⟩

/-- Server 1 is killed when it has sent its state at the StopSign, and server 2 after the first write of
it. Started again, server 2 answers a read. -/
theorem kills_run : ∃ tr, ∃ net : Net Nat (Loop Replica ReplicaMsg) (Message ReplicaMsg),
    (Net.machine (cluster sampleNodes)).KeptRun (Kept sampleLogs) tr net ∧
    (∀ p, Runs ((Machine.start tr net).party p).server.omniPaxos (sampleLogs 0)) ∧
    (∀ p, ((Machine.start tr net).party p).server.database = Database.empty) ∧
    (net.party 2).server.lastDecidedIdx = 0 ∧
    (net.party 2).server.network.sent = [(0, .apiResponse (.get "a" (some "1")))] := by
  have hshow := sampleLogs_shows 0 (d := 2) le_rfl
  have hrun : (Net.machine (cluster sampleNodes)).KeptRun (Kept sampleLogs) []
    (⟨fun p => sampleProcess p Database.empty, fun _ _ => []⟩ : Net Nat _ (Message ReplicaMsg)) :=
    ⟨Machine.Run.nil (M := Net.machine (cluster sampleNodes))
      ⟨fun p => sampleProcess_init p _, fun _ _ => rfl⟩, by simp⟩
  have hrun := hrun.snoc (.own (p := 1) rfl (.event (.wake rfl))) ⟨⟨_, hshow⟩, fun _ => le_rfl⟩
  have hrun := hrun.snoc (.own (p := 1) rfl (.event (.drain rfl))) ⟨⟨_, hshow⟩, fun _ => le_rfl⟩
  have hrun := hrun.snoc (.own (p := 1) rfl (.event (.sent rfl))) ⟨⟨_, hshow⟩, fun _ => le_rfl⟩
  have hrun := hrun.snoc (.own (p := 1) rfl (.killed (sampleProcess_init 1 _)
    (.applying rfl (.sending (w := Cluster.nextWorld) 2
      (Server.stopSign_mem_entriesRead hshow Nat.two_pos rfl rfl))))) ⟨_, hshow⟩
  have hrun := hrun.snoc (.first (p := 2) (q := 1) (m := .stateCatchup [("a", "1")]) rfl
    (by refine (?_ : _ = [Message.stateCatchup [("a", "1")]]); decide +kernel)
    (.event (.receive (m := ⟨0, .stateCatchup [("a", "1")]⟩))))
    (by exact ⟨⟨_, hshow⟩, fun _ => le_rfl⟩)
  have hrun := hrun.snoc (.own (p := 2) rfl (.event (.wake rfl))) ⟨⟨_, hshow⟩, fun _ => le_rfl⟩
  have hrun := hrun.snoc (.own (p := 2) rfl (.killed (sampleProcess_init 2 _)
    (.catchup (w := Cluster.nextWorld) 1 rfl))) ⟨_, hshow⟩
  have hrun := hrun.snoc (.own (p := 2) rfl (.event (.receive (m := ⟨0, .apiRequest (.get "a")⟩))))
    ⟨⟨_, hshow⟩, fun _ => le_rfl⟩
  have hrun := hrun.snoc (.own (p := 2) rfl (.event (.wake rfl))) ⟨⟨_, hshow⟩, fun _ => le_rfl⟩
  have hrun := hrun.snoc (.own (p := 2) rfl (.event (.process (w := Cluster.nextWorld) rfl rfl)))
    ⟨⟨_, hshow⟩, fun _ => le_rfl⟩
  exact ⟨_, _, hrun, fun _ => ⟨_, hshow⟩, fun _ => rfl, rfl, by decide +kernel⟩

theorem loop_values_decided_sample : ∃ (tr : List (Machine.Transition
      (Net Nat (Loop Replica ReplicaMsg) (Message ReplicaMsg))
      (Net.Event Nat (Incident ReplicaMsg Replica))))
      (net : Net Nat (Loop Replica ReplicaMsg) (Message ReplicaMsg)),
    (net.party 2).server.lastDecidedIdx = 0 ∧ DecidedIn sampleLogs tr net "a" (some "1") := by
  obtain ⟨tr, net, hrun, hruns, hempty, hlast, hsent⟩ := kills_run
  have hanswers := (loop_values_decided hrun.run hrun.keeps hruns hempty).2.1
  exact ⟨tr, net, hlast, hanswers 2 "a" (some "1") (by rw [hsent]; exact List.mem_cons_self)⟩

end Crashes
end OmniKV
