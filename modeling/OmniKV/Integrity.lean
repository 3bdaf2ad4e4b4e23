import OmniKV.Agreement

/-!
# Integrity

Where the values of a store come from. Kills tear a database between any two writes, late state
transfers turn it back, and replays after a restart mix old values with new ones, so a database need
not be the state after any prefix of the decided log. Each key taken by itself is: whatever happens,
every value a node holds, sends or answers is the value the key had after some decided prefix.

A state transfer is killed between its writes as well (`Incident.killedCatchup`), and a killed
process may have sent its own state to some of its peers.

* `Honest.step` — a step of a node keeps what is allowed, if what it has decided is.
* `values_decided` — in every run only values of decided prefixes occur.
-/

namespace OmniKV
namespace Integrity

open Overlay
open OmniPaxos (getDecidedIdx)
open Node (history)

variable {OP Msg Storage : Type} [OmniPaxos OP Msg Storage]

/-! ## Values of decided prefixes -/

/-- The value of `key` after the configurations before `c` and `d` commands of `c`. -/
def valueAt (logs : Nat → ConfigLog) (c d : Nat) (key : String) : Option String :=
  (Database.empty.applyCommands (history logs c ++ (logs c).cmds.take d)).get key

/-- The value of `key` after a prefix that the node has decided. -/
def DecidedBy (logs : Nat → ConfigLog) (n : Node OP Msg) (key : String) (value : Option String) :
    Prop :=
  ∃ d, d ≤ getDecidedIdx n.server.omniPaxos ∧ valueAt logs n.conf d key = value

theorem valueAt_eq_act (logs : Nat → ConfigLog) (c d : Nat) :
    valueAt logs c d =
      (logDelta (history logs c) * logDelta ((logs c).cmds.take d)).act Database.empty.get := by
  rw [← logDelta_append, ← Database.get_applyCommands]
  rfl

/-- What the prefix of length `d` does last to a key is the key's value after it. -/
theorem valueAt_of_eq_some {logs : Nat → ConfigLog} {c d : Nat} {key : String}
    {value : Option String} (h : logDelta ((logs c).cmds.take d) key = some value) :
    valueAt logs c d key = value := by
  rw [valueAt_eq_act]
  apply Delta.act_of_eq_some
  rw [Delta.mul_apply, h]
  rfl

/-! ## Writes -/

theorem commandWrites_delta {cmd : KVCommand} {x : Database.Write}
    (h : x ∈ Database.commandWrites cmd) : x.delta = cmd.delta := by
  cases cmd with
  | put kv =>
    obtain rfl := List.mem_singleton.mp h
    rfl
  | delete key =>
    obtain rfl := List.mem_singleton.mp h
    rfl
  | get key => cases h

theorem snapshotWrites_apply {order : HashOrder String String} {s : KVSnapshot} (hs : s.Disjoint)
    {x : Database.Write} (h : x ∈ Database.snapshotWrites order s) {key : String}
    {value : Option String} (hx : x.delta key = some value) : s.delta key = some value := by
  rcases List.mem_append.mp h with h | h
  · obtain ⟨p, hp, rfl⟩ := List.mem_map.mp h
    have hget := (order.mem_iter _ _ _).mp hp
    simp only [Database.Write.delta, Delta.write, Option.ite_none_right_eq_some,
      Option.some.injEq] at hx
    obtain ⟨rfl, rfl⟩ := hx
    exact KVSnapshot.lookup_iff_delta.mp hget
  · obtain ⟨key', hkey, rfl⟩ := List.mem_map.mp h
    simp only [Database.Write.delta, Delta.erase, Option.ite_none_right_eq_some,
      Option.some.injEq] at hx
    obtain ⟨rfl, rfl⟩ := hx
    exact hs.mem_deletedKeys.mp hkey

variable {env : Env} {w : World Storage} {logs : Nat → ConfigLog} {n n' : Node OP Msg}
  {V : String → Option String → Prop}

/-- A command writes what the log up to it makes of the key. -/
theorem decided_within {L : ConfigLog} {d : Nat} {e : LogEntry} (he : e ∈ L.entries.take d)
    {x : Database.Write} (hx : x ∈ Server.entryWrites w.order e) {key : String}
    {value : Option String} (hkey : x.delta key = some value) :
    ∃ i, i ≤ d ∧ logDelta (L.cmds.take i) key = some value := by
  rw [ConfigLog.entries, List.take_append] at he
  rcases List.mem_append.mp he with he | he
  · rw [← List.map_take] at he
    obtain ⟨cmd, hcmd, rfl⟩ := List.mem_map.mp he
    obtain ⟨i, hi, rfl⟩ := List.getElem_of_mem hcmd
    rw [List.length_take] at hi
    refine ⟨i + 1, by omega, ?_⟩
    rw [commandWrites_delta hx, List.getElem_take] at hkey
    rw [List.take_add_one, List.getElem?_eq_getElem (by omega), Option.toList_some,
      logDelta_append, Delta.mul_apply, logDelta_cons, logDelta_nil, mul_one, hkey]
    rfl
  · obtain ⟨stopsign, -, rfl⟩ := List.mem_map.mp (List.mem_of_mem_take he)
    cases hx

/-- Every write of a call of `handle_decided_entries` brings its key to a value the key had after a
decided prefix, also the writes of a snapshot, which skip the values in between. -/
theorem pendingWrites_within (hruns : Runs n.server.omniPaxos (logs n.conf)) (w : World Storage) :
    ∀ x ∈ n.server.pendingWrites w, x.delta.Within (DecidedBy logs n) := by
  intro x hx key value hkey
  obtain ⟨t, hshow⟩ := hruns
  obtain ⟨e, he, hxe⟩ := List.mem_flatMap.mp hx
  by_cases hlt : n.server.readIdx < getDecidedIdx n.server.omniPaxos
  · have hplain : e ∈ (logs n.conf).entries.take (getDecidedIdx n.server.omniPaxos) →
        DecidedBy logs n key value := by
      intro hmem
      obtain ⟨i, hi, hlog⟩ := decided_within hmem hxe hkey
      exact ⟨i, hi, valueAt_of_eq_some hlog⟩
    rw [Server.entriesRead_eq hshow hlt, ConfigLog.suffix] at he
    split at he
    · rcases List.mem_cons.mp he with rfl | he
      · have hlog := snapshotWrites_apply t.build_disjoint hxe hkey
        rw [t.build_delta] at hlog
        refine ⟨t.log.length, hshow.compacted_le, valueAt_of_eq_some ?_⟩
        rwa [← List.prefix_iff_eq_take.mp hshow.compacted]
      · exact hplain (List.mem_of_mem_drop he)
    · exact hplain (List.mem_of_mem_drop he)
  · rw [Server.entriesRead_nothing (Nat.le_of_not_lt hlt)] at he
    cases he

/-- A call that returns has made all its writes. -/
theorem handleDecidedEntries_database (hruns : Runs n.server.omniPaxos (logs n.conf))
    {s' : Server OP Msg} (h : n.server.handleDecidedEntries env w = .ok s') :
    s'.database = (n.server.pendingWrites w).foldl Database.write n.server.database := by
  obtain ⟨t, hshow⟩ := hruns
  cases Server.handleDecidedEntries_cases hshow h with
  | nothing hle =>
    rw [Server.pendingWrites, Server.entriesRead_nothing hle]
    rfl
  | commands hlt hd =>
    have hplain : ∀ e ∈ (logs n.conf).suffix t n.server.readIdx
        (getDecidedIdx n.server.omniPaxos), e.isStop = false := fun e he => by
      simpa using List.any_eq_false.mp (Server.suffix_isStop hd) e he
    have hwrites := Server.updateDatabase_eq_writes env w n.server hplain
    rw [Server.updateDatabase_suffix env w n.server hshow.compacted hshow.compacted_le hd] at hwrites
    rw [Server.pendingWrites, Server.entriesRead_eq hshow hlt]
    exact congrArg Server.database (Except.ok.inj hwrites)
  | stopSign hlt hss hd _ _ =>
    rw [Server.finishDecided_database, Server.pendingWrites_stopSign env w hshow hlt hss hd]

/-! ## Incidents -/

/-- What happens to a node: an event, or a kill in the middle of a state transfer that has come
in. -/
inductive Incident (Msg Storage : Type) where
  | event (e : Event Msg Storage)
  | killedCatchup (kvList : List (String × String))

inductive Step (env : Env) (logs : Nat → ConfigLog) :
    Node OP Msg → Incident Msg Storage → Node OP Msg → Prop where
  | event {n n' : Node OP Msg} {e : Event Msg Storage} : Node.Step env logs n e n' →
      Step env logs n (.event e) n'
  | killedCatchup {n : Node OP Msg} {w : World Storage} {kvList : List (String × String)} (k : Nat)
      {api : Except QueryError StatefulSet} {restarted : Bool} {op : OP} {db : Database}
      {s' : Server OP Msg} :
      db = ((Database.kvWrites w.order n.server.database kvList).take k).foldl Database.write
        n.server.database →
      (Server.initial env api op db).recover restarted = .ok s' →
      Runs s'.omniPaxos (logs 0) →
      Step env logs n (.killedCatchup kvList) { server := s', conf := 0, applied := ∅, boot := db }

def catchups (sends : List (Nat × Message Msg)) : List (Nat × List (String × String)) :=
  sends.filterMap fun
    | (pid, .stateCatchup kvList) => some (pid, kvList)
    | _ => none

/-- The state transfers sent in a step, with their receivers: also those a killed process had sent. -/
def catchupsSent (t : Machine.Transition (Node OP Msg) (Incident Msg Storage)) :
    List (Nat × List (String × String)) :=
  match t.event with
  | .event (.restart sends) => catchups sends
  | _ => catchups (t.after.server.network.sent.drop t.before.server.network.sent.length)

def catchupTaken : Incident Msg Storage → Option (List (String × String))
  | .event (.catchup _ kvList) => some kvList
  | .killedCatchup kvList => some kvList
  | _ => none

/-- Nodes that have started with an empty disk, with state transfers as messages. -/
def cluster (env : Nat → Env) (logs : Nat → ConfigLog) :
    Net.Spec Nat (Node OP Msg) (Incident Msg Storage) (List (String × String)) where
  machine p :=
    { init := (Node.machine (env p) logs Database.empty : Machine (Node OP Msg)
        (Event Msg Storage)).init
      step := Step (env p) logs }
  sends := catchupsSent
  takes := catchupTaken

/-! ## What a step keeps -/

/-- The list has no key twice, and gives every key an allowed value. -/
structure ListWithin (V : String → Option String → Prop) (kvList : List (String × String)) :
    Prop where
  nodup : (kvList.map Prod.fst).Nodup
  values : Within V ((∅ : HashMap String String).insertAll kvList).get

theorem ListWithin.mono {V' : String → Option String → Prop} {kvList : List (String × String)}
    (h : ListWithin V kvList) (hV : ∀ key value, V key value → V' key value) : ListWithin V' kvList :=
  ⟨h.nodup, h.values.mono hV⟩

theorem ListWithin.lastValue {kvList : List (String × String)} (h : ListWithin V kvList)
    (key : String) : V key (HashMap.lastValue kvList key) := by
  have hkey := h.values key
  rwa [HashMap.get_insertAll_lastValue, HashMap.get_empty, Option.or_none] at hkey

structure Honest (V : String → Option String → Prop) (logs : Nat → ConfigLog) (n : Node OP Msg) :
    Prop where
  runs : Runs n.server.omniPaxos (logs n.conf)
  database : Within V n.server.database.get
  answers : ∀ key value,
    (0, .apiResponse (.get key value)) ∈ n.server.network.sent → V key value

theorem Honest.mono {V' : String → Option String → Prop} (h : Honest V logs n)
    (hV : ∀ key value, V key value → V' key value) : Honest V' logs n where
  runs := h.runs
  database := h.database.mono hV
  answers := fun key value hmem => hV key value (h.answers key value hmem)

theorem Honest.init (hV : ∀ key, V key none)
    (h : (Node.machine env logs Database.empty : Machine (Node OP Msg) (Event Msg Storage)).init n) :
    Honest V logs n := by
  obtain ⟨api, op, hruns, rfl⟩ := h
  refine ⟨hruns, fun key => ?_, fun key value hmem => by cases hmem⟩
  show V key (Database.empty.get key)
  rw [Database.get_empty]
  exact hV key

theorem mem_catchups {sends : List (Nat × Message Msg)} {pid : Nat}
    {kvList : List (String × String)} (h : (pid, kvList) ∈ catchups sends) :
    kvList ∈ Transfer.kvLists sends := by
  obtain ⟨⟨q, m⟩, hm, heq⟩ := List.mem_filterMap.mp h
  refine Transfer.mem_kvLists.mpr ⟨_, hm, ?_⟩
  split at heq
  · rename_i hcatchup
    cases heq
    obtain ⟨-, rfl⟩ := Prod.mk.inj hcatchup
    rfl
  · cases heq

theorem listWithin_of_ok {db : Database} {kvList : List (String × String)}
    (hall : db.getAllKeyValues = .ok kvList) (h : Within V db.get) : ListWithin V kvList := by
  obtain ⟨kvList', hall', hnodup, hmem⟩ := db.getAllKeyValues_ok
  rw [hall] at hall'
  obtain rfl := Except.ok.inj hall'
  refine ⟨hnodup, fun key => ?_⟩
  rw [HashMap.get_insertAll, Delta.act, Delta.prod_write_apply hnodup (hmem key)]
  have hkey := h key
  cases hget : db.get key with
  | none => simpa [hget] using hkey
  | some value => simpa [hget] using hkey

/-- A call that returns lists, where it sends its state, what it has made of the database. -/
theorem handle_sends (hruns : Runs n.server.omniPaxos (logs n.conf)) {s' : Server OP Msg}
    (h : n.server.handleDecidedEntries env w = .ok s') :
    ∀ kvList ∈ Transfer.kvLists (s'.network.sent.drop n.server.network.sent.length),
      s'.database.getAllKeyValues = .ok kvList := by
  obtain ⟨t, hshow⟩ := hruns
  cases Server.handleDecidedEntries_cases hshow h with
  | nothing hle =>
    simp [Transfer.kvLists]
  | commands hlt hd =>
    rw [Server.send_sent, List.drop_left]
    simp [Transfer.kvLists]
  | stopSign hlt hss hd hstorage hbuild =>
    rename_i stopsign storage op
    obtain ⟨more, hsent, hmore⟩ := Transfer.finishDecided_sent { n.server with
      omniPaxos := op
      network := { sent := n.server.network.sent ++
        Server.catchups env (n.server.replayed (logs n.conf) t) stopsign.nextConfig }
      database := n.server.replayed (logs n.conf) t
      lastDecidedIdx := 0
      currentConfigId := (n.server.currentConfigId + 1) % 2 ^ 64 }
      (getDecidedIdx n.server.omniPaxos)
    rw [hsent, List.append_assoc, List.drop_left, Transfer.kvLists_append, hmore, List.append_nil,
      Server.finishDecided_database]
    exact (Transfer.kvLists_catchups fun m hm => hm).1

theorem afterHandle_runs (hruns : Runs n.server.omniPaxos (logs n.conf)) {s' : Server OP Msg}
    (h : n.server.handleDecidedEntries env w = .ok s')
    (hnext : n.server.readsStop = true → Runs s'.omniPaxos (logs (n.conf + 1))) :
    Runs (n.afterHandle s').server.omniPaxos (logs (n.afterHandle s').conf) := by
  obtain ⟨t, hshow⟩ := hruns
  rcases Node.afterHandle_cases hshow h with ⟨_, heq⟩ | ⟨_, _, _, heq⟩ | ⟨_, _, hstop, _, heq⟩
  · rw [heq]
    exact ⟨t, hshow⟩
  · rw [heq]
    exact ⟨t, hshow⟩
  · rw [heq]
    exact hnext hstop

theorem handle_answers {s s' : Server OP Msg} (h : s.handleDecidedEntries env w = .ok s')
    {key : String} {value : Option String}
    (hmem : (0, .apiResponse (.get key value)) ∈ s'.network.sent) :
    (0, .apiResponse (.get key value)) ∈ s.network.sent := by
  have hsends : Server.Sends (fun m => m ≠ .apiResponse (.get key value)) s s' :=
    Server.handleDecidedEntries_sends (by simp) (by simp) h
  obtain ⟨more, hsent, hok⟩ := hsends
  rw [hsent] at hmem
  rcases List.mem_append.mp hmem with hmem | hmem
  · exact hmem
  · exact absurd rfl (hok _ hmem)

theorem Honest.pending (h : Honest V logs n)
    (hdecided : ∀ key value, DecidedBy logs n key value → V key value) {ws : List Database.Write}
    (hws : ∀ x ∈ ws, x ∈ n.server.pendingWrites w) :
    Within V (ws.foldl Database.write n.server.database).get := by
  refine Database.within_writes (fun x hx key value hkey => ?_) h.database
  exact hdecided key value (pendingWrites_within h.runs w x (hws x hx) key value hkey)

/-- What a kill leaves on disk, and what the process has sent by then. -/
theorem Honest.killed (h : Honest V logs n) {db : Database} {sends : List (Nat × Message Msg)}
    (hkilled : n.server.Killed env w db sends)
    (hdecided : ∀ key value, DecidedBy logs n key value → V key value) :
    Within V db.get ∧ ∀ kvList ∈ Transfer.kvLists sends, ListWithin V kvList := by
  cases hkilled with
  | writing k =>
    exact ⟨h.pending hdecided fun x hx => List.mem_of_mem_take hx, by simp [Transfer.kvLists]⟩
  | sending j _ =>
    have hdb := h.pending (w := w) hdecided fun x hx => hx
    refine ⟨hdb, fun kvList hkv => ?_⟩
    have hall := (Transfer.kvLists_catchups fun m hm => List.mem_of_mem_take hm).1 kvList hkv
    exact listWithin_of_ok hall hdb

/-- A process that starts anew has answered nothing. -/
theorem Honest.restarted {api : Except QueryError StatefulSet} {restarted : Bool} {op : OP}
    {db : Database} {s' : Server OP Msg}
    (hrecover : (Server.initial env api op db).recover restarted = .ok s')
    (hruns : Runs s'.omniPaxos (logs 0)) (hdb : Within V db.get) :
    Honest V logs { server := s', conf := 0, applied := ∅, boot := db } := by
  have hs := Server.recover_ok hrecover
  refine ⟨hruns, ?_, fun key value hmem => ?_⟩
  · show Within V s'.database.get
    rw [hs]
    exact hdb
  · have hmem' : (0, .apiResponse (.get key value)) ∈ s'.network.sent := hmem
    rw [hs] at hmem'
    cases hmem'

/-- A step keeps the allowed values, where those of the node's decided prefixes are allowed and those
of a state transfer it takes; what it sends is allowed as well. -/
theorem Honest.step {e : Incident Msg Storage} (h : Honest V logs n) (hs : Step env logs n e n')
    (hdecided : ∀ key value, DecidedBy logs n key value → V key value)
    (htaken : ∀ kvList, catchupTaken e = some kvList → ListWithin V kvList) :
    Honest V logs n' ∧ ∀ pid kvList, (pid, kvList) ∈ catchupsSent ⟨n, e, n'⟩ →
      ListWithin V kvList := by
  cases hs with
  | event hs =>
    cases hs with
    | advance hruns _ =>
      exact ⟨⟨hruns, h.database, h.answers⟩, by simp [catchupsSent, catchups]⟩
    | get hs =>
      rw [Server.handleMsg_get] at hs
      cases hs
      refine ⟨⟨h.runs, h.database, ?_⟩, by simp [catchupsSent, catchups]⟩
      intro key value hmem
      rw [Server.send_sent] at hmem
      rcases List.mem_append.mp hmem with hmem | hmem
      · exact h.answers key value hmem
      · cases List.mem_singleton.mp hmem
        exact h.database _
    | handle hs hnext =>
      rename_i w s'
      have hdb : Within V s'.database.get := by
        rw [handleDecidedEntries_database h.runs hs]
        exact h.pending hdecided fun x hx => hx
      refine ⟨⟨afterHandle_runs h.runs hs hnext, ?_, ?_⟩, ?_⟩
      · rw [Node.afterHandle_server]
        exact hdb
      · intro key value hmem
        rw [Node.afterHandle_server] at hmem
        exact h.answers key value (handle_answers hs hmem)
      · intro pid kvList hmem
        have hlist := mem_catchups hmem
        rw [Node.afterHandle_server] at hlist
        exact listWithin_of_ok (handle_sends h.runs hs kvList hlist) hdb
    | catchup hs =>
      rw [Server.handleMsg_stateCatchup] at hs
      cases hs
      refine ⟨⟨h.runs, ?_, h.answers⟩, by simp [catchupsSent, catchups]⟩
      show Within V (Database.handleKv _ _ _).get
      rw [Database.get_handleKv]
      exact (htaken _ rfl).values
    | restart hkilled hrecover hruns _ =>
      obtain ⟨hdb, hsends⟩ := h.killed hkilled hdecided
      refine ⟨.restarted hrecover hruns hdb, ?_⟩
      intro pid kvList hmem
      exact hsends kvList (mem_catchups hmem)
  | killedCatchup k hdb hrecover hruns =>
    refine ⟨.restarted hrecover hruns ?_, ?_⟩
    · rw [hdb]
      refine Database.within_writes (fun x hx => ?_) h.database
      exact Database.kvWrites_within (htaken _ rfl).values _ _ x (List.mem_of_mem_take hx)
    · rw [Server.recover_ok hrecover]
      simp [catchupsSent, catchups, Server.initial]

/-! ## Runs -/

/-- The value of `key` after a prefix that some node has decided by now. -/
def Decided (logs : Nat → ConfigLog)
    (tr : List (Machine.Transition (Net Nat (Node OP Msg) (List (String × String)))
      (Net.Event Nat (Incident Msg Storage))))
    (net : Net Nat (Node OP Msg) (List (String × String))) (key : String) (value : Option String) :
    Prop :=
  ∃ visited, Machine.Visited tr net visited ∧ ∃ p, DecidedBy logs (visited.party p) key value

section Runs

variable {env : Nat → Env} {net net' : Net Nat (Node OP Msg) (List (String × String))}
  {tr : List (Machine.Transition (Net Nat (Node OP Msg) (List (String × String)))
    (Net.Event Nat (Incident Msg Storage)))}

/-- Every node, and every state transfer on its way. -/
structure AllHonest (V : String → Option String → Prop) (logs : Nat → ConfigLog)
    (net : Net Nat (Node OP Msg) (List (String × String))) : Prop where
  party : ∀ p, Honest V logs (net.party p)
  link : ∀ q p, ∀ kvList ∈ net.link q p, ListWithin V kvList

theorem AllHonest.mono {V' : String → Option String → Prop} (h : AllHonest V logs net)
    (hV : ∀ key value, V key value → V' key value) : AllHonest V' logs net where
  party p := (h.party p).mono hV
  link q p kvList hmem := (h.link q p kvList hmem).mono hV

theorem AllHonest.step {e : Net.Event Nat (Incident Msg Storage)} (h : AllHonest V logs net)
    (hs : (Net.machine (cluster env logs)).step net e net')
    (hdecided : ∀ p key value, DecidedBy logs (net.party p) key value → V key value) :
    AllHonest V logs net' := by
  have hmoved := (h.party e.party).step (Net.Step.moves hs) (hdecided e.party) fun kvList htaken => by
    obtain ⟨q, hmem⟩ := Net.Step.takes hs htaken
    exact h.link q e.party kvList hmem
  refine ⟨fun p => ?_, fun q p kvList hmem => ?_⟩
  · by_cases hp : p = e.party
    · rw [hp]
      exact hmoved.1
    · rw [Net.Step.stays hs hp]
      exact h.party p
  · rcases Net.Step.mem_link hs hmem with hold | ⟨-, hsent⟩
    · exact h.link q p kvList hold
    · exact hmoved.2 p kvList hsent

theorem allHonest_run (hrun : (Net.machine (cluster env logs)).Run tr net) :
    AllHonest (Decided logs tr net) logs net := by
  induction hrun with
  | nil h0 =>
    rename_i net
    refine ⟨fun p => .init (fun key => ?_) (h0.1 p), fun q p kvList hmem => ?_⟩
    · refine ⟨net, .last, p, 0, Nat.zero_le _, ?_⟩
      obtain ⟨api, op, -, hp⟩ := h0.1 p
      rw [hp, valueAt, history, List.take_zero]
      exact Database.get_empty key
    · rw [h0.2 q p] at hmem
      cases hmem
  | snoc hrun hs ih =>
    refine (ih.mono fun key value hdecided => ?_).step hs fun p key value hby =>
      ⟨_, Machine.Visited.last.snoc, p, hby⟩
    obtain ⟨visited, hvisited, hby⟩ := hdecided
    exact ⟨visited, hvisited.snoc, hby⟩

/-- Whatever is killed, restarted, delayed, overtaken or skipped: every key of every database, every
key of a state transfer on its way, which lists no key twice, and every answer to a client has a value
the key had after a prefix that some node had decided by then. -/
theorem values_decided (hrun : (Net.machine (cluster env logs)).Run tr net) :
    (∀ p key, Decided logs tr net key ((net.party p).server.database.get key)) ∧
    (∀ q p, ∀ kvList ∈ net.link q p, (kvList.map Prod.fst).Nodup ∧ ∀ key,
      Decided logs tr net key (HashMap.lastValue kvList key)) ∧
    ∀ p key value, (0, .apiResponse (.get key value)) ∈ (net.party p).server.network.sent →
      Decided logs tr net key value := by
  have h := allHonest_run hrun
  refine ⟨fun p key => (h.party p).database key, fun q p kvList hmem => ?_, fun p key value =>
    (h.party p).answers key value⟩
  have hlist := h.link q p kvList hmem
  exact ⟨hlist.nodup, hlist.lastValue⟩

end Runs

/-- Node 1 sends its state at the StopSign, and node 2 is killed after the first write of it: the
value it finds when it starts again is one that node 1 has decided. -/
theorem values_decided_sample : ∃ (tr : List (Machine.Transition
      (Net Nat (Node Replica ReplicaMsg) (List (String × String)))
      (Net.Event Nat (Incident ReplicaMsg Replica))))
      (net : Net Nat (Node Replica ReplicaMsg) (List (String × String))),
    (Net.machine (cluster sampleNodes sampleLogs)).Run tr net ∧
    (net.party 2).appliedCmds sampleLogs = [] ∧
    (net.party 2).server.database.get "a" = some "1" ∧
    ∀ p key, Decided sampleLogs tr net key ((net.party p).server.database.get key) := by
  have hshow := sampleLogs_shows 0 (d := 2) le_rfl
  have hrun := Machine.Run.nil (M := Net.machine (cluster sampleNodes sampleLogs))
    (s := Agreement.sampleStart) ⟨fun p => ⟨.error .client, _, ⟨_, hshow⟩, rfl⟩, fun _ _ => rfl⟩
  have hrun := hrun.snoc (Net.Step.own (p := 1) rfl (.event
    (Node.Step.stopSign (w := sampleWorld (.opened (sampleLogs 1) 0 (.create [])))
      hshow Nat.two_pos rfl rfl rfl rfl
      ⟨_, Replica.shows_uncompacted rfl (Nat.zero_le _)⟩)))
  have hrun := hrun.snoc (Net.Step.first (p := 2) (q := 1) (m := [("a", "1")]) rfl
    (by refine (?_ : _ = [[("a", "1")]]); decide)
    (Step.killedCatchup (w := sampleWorld (.opened (sampleLogs 1) 0 (.create []))) 1 rfl
      (Server.recover_false (.initial (sampleNodes 2) (.error .client)
        (Replica.opened (sampleLogs 0) 2 (.create [])) _)) ⟨_, hshow⟩))
  exact ⟨_, _, hrun, rfl, by decide +kernel, (values_decided hrun).1⟩

end Integrity
end OmniKV
