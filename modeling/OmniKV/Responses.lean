import OmniKV.Answers
import OmniKV.Crashes
import OmniKV.Dispatch

/-!
# Responses

The way back: what the user of the network actor gets to see of a node's answers.

The reader of a client port prints each line that decodes. A node writes to its client API connection what
it sends to 0, and a process has one such connection. `responses_shown` puts the two together with
`Answers`: what is printed for a connection is the beginning of what the process has said to its client,
and all of it that has arrived once nothing is left to read. And whatever happens to the processes of the
cluster, each value printed was decided (`shown_decided`).
-/

namespace OmniKV
namespace Responses

open Frames (newline readUntil Ending Codec)
open ClientPorts (Ports TaskEvent TaskStep)
open Answers (toClient said answerKeys getKeys)
open Routing (batch)

variable {Msg : Type} {codec : Codec (Message Msg) UInt8}

/-! ## Reading off a stream -/

/-- The messages that the network actor knows. -/
def isApi : Message Msg → Bool
  | .apiRequest _ | .apiResponse _ => true
  | _ => false

/-- `from_slice::<Message>` of the network actor. -/
def decodeApi (codec : Codec (Message Msg) UInt8) (data : Bytes) : Option (Message Msg) :=
  (codec.decode data).filter isApi

theorem filterMap_decodeApi (lines : List Bytes) :
    lines.filterMap (decodeApi codec) = (lines.filterMap codec.decode).filter isApi :=
  List.filter_filterMap.symm

/-- The lines `read` of the beginning `stream` of the messages `ms`, with `unread` still to come. -/
structure Taken (codec : Codec (Message Msg) UInt8) (ms : List (Message Msg)) (stream : Bytes)
    (read : List Bytes) (unread : Bytes) : Prop where
  split : ∃ rest, ms = read.filterMap codec.decode ++ rest ∧
    unread <+: codec.lines newline rest ∧
    codec.arrived ms stream = read.filterMap codec.decode ++ codec.arrived rest unread

theorem Taken.start {ms : List (Message Msg)} {stream : Bytes}
    (h : stream <+: codec.lines newline ms) : Taken codec ms stream [] stream :=
  ⟨ms, rfl, h, rfl⟩

/-- A line that decodes is the next message. One that does not is the last, cut off. -/
theorem Taken.read (laws : codec.Lawful newline) {ms : List (Message Msg)} {stream : Bytes}
    {read : List Bytes} {unread : Bytes} (h : Taken codec ms stream read unread)
    (hne : unread ≠ []) : Taken codec ms stream (read ++ [(readUntil newline unread).1])
      (readUntil newline unread).2 := by
  obtain ⟨rest, hms, hunread, harrived⟩ := h
  by_cases hsep : newline ∈ unread
  · obtain ⟨m, rest, rfl, hline, hrest, hnext⟩ := laws.readUntil_lines hunread hsep
    refine ⟨rest, ?_, hrest, ?_⟩
    · simp [hms, hline, laws.decode_line]
    · simp [harrived, hnext, hline, laws.decode_line]
  · rw [Frames.readUntil_of_notMem hsep]
    rcases laws.arrived_of_notMem hunread hsep with ⟨m, rfl, hm⟩ | ⟨-, hnone, hdecode⟩
    · have hdecode := laws.decode_encode m
      obtain ⟨rest', rfl, -⟩ := Peers.decode_next laws hunread hne
        (by rwa [Frames.readUntil_of_notMem hsep])
      refine ⟨rest', ?_, List.nil_prefix, ?_⟩
      · simp [hms, hdecode]
      · simp [harrived, hm, hdecode, laws.arrived_nil]
    · refine ⟨rest, ?_, List.nil_prefix, ?_⟩
      · simp [hms, hdecode hne]
      · simp [harrived, hnone, hdecode hne, laws.arrived_nil]

theorem Taken.begins {ms : List (Message Msg)} {stream : Bytes} {read : List Bytes}
    {unread : Bytes} (h : Taken codec ms stream read unread) :
    read.filterMap (decodeApi codec) <+: ms.filter isApi := by
  obtain ⟨rest, hms, -, -⟩ := h
  rw [filterMap_decodeApi, hms, List.filter_append]
  exact List.prefix_append _ _

theorem Taken.all (laws : codec.Lawful newline) {ms : List (Message Msg)} {stream : Bytes}
    {read : List Bytes} (h : Taken codec ms stream read []) :
    read.filterMap (decodeApi codec) = (codec.arrived ms stream).filter isApi := by
  obtain ⟨rest, -, -, harrived⟩ := h
  rw [filterMap_decodeApi, harrived, laws.arrived_nil, List.append_nil]

/-! ## The reader of a port -/

/-- The line that a step reads from connection `c`. -/
def lineRead (c : ConnId) (t : Machine.Transition Ports (Nat × TaskEvent)) : List Bytes :=
  match t.event with
  | (i, .read) =>
    if i = c.1 ∧ (t.before i).number = c.2 then [(readUntil newline (t.before i).unread).1] else []
  | _ => []

/-- What is printed for connection `c`. -/
def printed (codec : Codec (Message Msg) UInt8) (c : ConnId)
    (tr : List (Machine.Transition Ports (Nat × TaskEvent))) : List (Message Msg) :=
  (tr.flatMap (lineRead c)).filterMap (decodeApi codec)

variable {clientPorts : List Nat} {s s' : Ports} {e : Nat × TaskEvent} {i k : Nat}
  {tr : List (Machine.Transition Ports (Nat × TaskEvent))}

theorem lineRead_of_ne {t : Machine.Transition Ports (Nat × TaskEvent)}
    (h : t.event.1 ≠ i ∨ t.event.2 ≠ .read) : lineRead (i, k) t = [] := by
  obtain ⟨s, ⟨j, e⟩, s'⟩ := t
  cases e with
  | read => exact if_neg fun hc => (h.resolve_right fun hread => hread rfl) hc.1
  | _ => rfl

/-- A task reads a line, goes on to a new connection, or leaves what is unread. -/
theorem taskStep_cases {p p' : ClientPorts.Port} {e : TaskEvent} (hs : TaskStep p e p') :
    e = .read ∧ p.unread ≠ [] ∧ p'.number = p.number ∧
        p'.unread = (readUntil newline p.unread).2 ∨
      e ≠ .read ∧ (p.number < p'.number ∨ p'.number = p.number ∧ p'.unread = p.unread) := by
  cases hs with
  | accept _ => exact Or.inr ⟨by simp, Or.inl (Nat.lt_succ_self _)⟩
  | read _ hne _ => exact Or.inl ⟨rfl, hne, rfl, rfl⟩
  | register _ | eof _ _ _ | error _ _ _ | joinReader _ | joinReaderPanics _ | joinHandler _
  | joinHandlerPanics _ => exact Or.inr ⟨by simp, Or.inr ⟨rfl, rfl⟩⟩

theorem number_le {p p' : ClientPorts.Port} {e : TaskEvent} (hs : TaskStep p e p') :
    p.number ≤ p'.number := by
  rcases taskStep_cases hs with ⟨-, -, hsame, -⟩ | ⟨-, hlt | ⟨hsame, -⟩⟩
  · exact hsame.ge
  · exact hlt.le
  · exact hsame.ge

/-- Nothing has been read from a connection to come. -/
theorem lineRead_fresh (hrun : (ClientPorts.machine clientPorts).Run tr s)
    (h : (s i).number < k) : tr.flatMap (lineRead (i, k)) = [] := by
  induction hrun with
  | nil _ => rfl
  | @snoc tr s s' e _ hs ih =>
    rcases ClientPorts.Step.port hs i with ⟨hi, hstep⟩ | ⟨hne, hsame⟩
    · have hlt := (number_le hstep).trans_lt h
      obtain ⟨j, e⟩ := e
      obtain rfl : j = i := hi
      rw [List.flatMap_append, ih hlt, List.nil_append, List.flatMap_singleton]
      cases e with
      | read => exact if_neg fun hc => absurd hc.2 (Nat.ne_of_lt hlt)
      | _ => rfl
    · rw [hsame] at h
      rw [List.flatMap_append, ih h, List.flatMap_singleton, lineRead_of_ne (.inl hne)]
      rfl

/-- The connection `k` of port `i` has been accepted, and `read` are the lines read of it. -/
structure Reading (codec : Codec (Message Msg) UInt8) (ms : List (Message Msg)) (stream : Bytes)
    (i k : Nat) (read : List Bytes) (s : Ports) : Prop where
  since : k ≤ (s i).number
  taken : ∃ unread, Taken codec ms stream read unread ∧
    ((s i).number = k → (s i).unread = unread)

theorem Reading.step (laws : codec.Lawful newline) {ms : List (Message Msg)} {stream : Bytes}
    {read : List Bytes} (h : Reading codec ms stream i k read s)
    (hs : ClientPorts.Step clientPorts s e s') :
    Reading codec ms stream i k (read ++ lineRead (i, k) ⟨s, e, s'⟩) s' := by
  rcases hs.port i with ⟨hi, hstep⟩ | ⟨hne, hsame⟩
  · obtain ⟨j, e⟩ := e
    obtain rfl : j = i := hi
    obtain ⟨hsince, unread, htaken, hunread⟩ := h
    rcases taskStep_cases hstep with ⟨rfl, hne, hnumber, hrest⟩ | ⟨hread, hother⟩
    · by_cases hk : (s j).number = k
      · have hline : lineRead (j, k) ⟨s, (j, .read), s'⟩ = [(readUntil newline (s j).unread).1] :=
          if_pos ⟨rfl, hk⟩
        obtain rfl := hunread hk
        rw [hline]
        exact ⟨by rw [hnumber]; exact hsince, _, htaken.read laws hne, fun _ => hrest⟩
      · have hline : lineRead (j, k) ⟨s, (j, .read), s'⟩ = [] := if_neg fun hc => hk hc.2
        rw [hline, List.append_nil]
        exact ⟨by rw [hnumber]; exact hsince, unread, htaken, fun hk' => absurd (hnumber ▸ hk') hk⟩
    · rw [lineRead_of_ne (.inr hread), List.append_nil]
      refine ⟨hsince.trans (number_le hstep), unread, htaken, fun hk => ?_⟩
      rcases hother with hlt | ⟨hnumber, hsame⟩
      · omega
      · rw [hsame]
        exact hunread (hnumber ▸ hk)
  · rw [lineRead_of_ne (.inl hne), List.append_nil]
    exact ⟨by rw [hsame]; exact h.since, by rw [hsame]; exact h.taken⟩

/-- From when a connection is accepted on, what is read of it is the beginning of the messages whose
lines it carries. -/
theorem reading_run (laws : codec.Lawful newline) {ms : List (Message Msg)}
    (hrun : (ClientPorts.machine clientPorts).Run tr s) {stream : Bytes} {ending : Ending} :
    ∀ t ∈ tr, t.event = (i, .accept stream ending) → stream <+: codec.lines newline ms →
      Reading codec ms stream i (t.after i).number (tr.flatMap (lineRead (i, (t.after i).number)))
        s := by
  induction hrun with
  | nil _ => simp
  | @snoc tr s s' e hrun hs ih =>
    intro t ht haccept hstream
    rw [List.flatMap_append, List.flatMap_singleton]
    rcases List.mem_append.mp ht with ht | ht
    · exact (ih t ht haccept hstream).step laws hs
    · obtain rfl := List.mem_singleton.mp ht
      obtain rfl : e = (i, .accept stream ending) := haccept
      have hnumber : (s' i).number = (s i).number + 1 ∧ (s' i).unread = stream := by
        rcases ClientPorts.Step.port hs i with ⟨-, hstep⟩ | ⟨hne, -⟩
        · generalize s' i = p at hstep
          cases hstep
          exact ⟨rfl, rfl⟩
        · exact absurd rfl hne
      have hfresh := lineRead_fresh hrun (i := i) (k := (s' i).number) (by omega)
      rw [hfresh, lineRead_of_ne (.inr (by simp)), List.nil_append]
      exact ⟨le_rfl, stream, .start hstream, fun _ => hnumber.2⟩

/-- Once nothing is left to read, all that has arrived is printed. -/
theorem printed_all (laws : codec.Lawful newline) {ms : List (Message Msg)}
    (hrun : (ClientPorts.machine clientPorts).Run tr s)
    {t : Machine.Transition Ports (Nat × TaskEvent)} (ht : t ∈ tr) {stream : Bytes} {ending : Ending}
    (haccept : t.event = (i, .accept stream ending)) (hstream : stream <+: codec.lines newline ms)
    (hnumber : (s i).number = (t.after i).number) (hnil : (s i).unread = []) :
    printed codec (i, (t.after i).number) tr = (codec.arrived ms stream).filter isApi := by
  obtain ⟨-, unread, htaken, hunread⟩ := reading_run laws hrun t ht haccept hstream
  obtain rfl : unread = [] := by rw [← hunread hnumber, hnil]
  exact htaken.all laws

/-- A reader whose stream ends with an end of file can read all of it. -/
theorem exists_read_all (hrun : (ClientPorts.machine clientPorts).Run tr s) (hi : i ∈ clientPorts)
    (hphase : (s i).phase = .reading) (heof : (s i).ending = .eof) :
    ∃ more s', (ClientPorts.machine clientPorts).Run (tr ++ more) s' ∧
      (s' i).number = (s i).number ∧ (s' i).unread = [] := by
  induction hleft : (s i).unread.length using Nat.strongRecOn generalizing tr s with
  | ind n ih =>
    by_cases hunread : (s i).unread = []
    · exact ⟨[], s, by rwa [List.append_nil], rfl, hunread⟩
    · have hread := hrun.snoc (.task hi (.read hphase hunread (.inr heof)))
      obtain ⟨more, s', hrun', hnumber, hnil⟩ := ih _
        (hleft ▸ by simpa using Frames.readUntil_snd_length_lt hunread) hread (by simpa using hphase)
        (by simpa using heof) rfl
      rw [List.append_assoc] at hrun'
      exact ⟨_, s', hrun', by simpa using hnumber, hnil⟩

/-! ## What a node writes to its client API -/

/-- The messages sent to the client. -/
def toApi (sent : List (Nat × Message Msg)) : List (Message Msg) :=
  (sent.filter fun x => x.1 = 0).map Prod.snd

/-- Responses go to the client, and no requests are sent. -/
def Regular (x : Nat × Message Msg) : Prop :=
  (∃ resp, x = (0, .apiResponse resp)) ∨ isApi x.2 = false

theorem toApi_filter {sent : List (Nat × Message Msg)} (h : ∀ x ∈ sent, Regular x) :
    (toApi sent).filter isApi = (toClient sent).map .apiResponse := by
  induction sent with
  | nil => rfl
  | cons x sent ih =>
    have htail := ih fun y hy => h y (List.mem_cons_of_mem _ hy)
    rcases h x List.mem_cons_self with ⟨resp, rfl⟩ | hx
    · exact congrArg (List.cons (.apiResponse resp)) htail
    · have hapi : (toApi (x :: sent)).filter isApi = (toApi sent).filter isApi := by
        by_cases hr : x.1 = 0 <;> simp [toApi, hr, hx]
      have hclient : toClient (x :: sent) = toClient sent := by
        obtain ⟨r, m⟩ := x
        cases m with
        | apiResponse resp => cases hx
        | _ => rfl
      rw [hapi, hclient, htail]

variable {ι OP Storage : Type} [OmniPaxos OP Msg Storage] [OPMessage Msg] {env : Env}

theorem regular_run {tr : List (Machine.Transition (Loop OP Msg) (Loop.Event Msg Storage))}
    {l : Loop OP Msg} (hrun : (Loop.machine env).Run tr l) :
    ∀ x ∈ l.server.network.sent, Regular x := by
  refine hrun.invariant' (I := fun l => ∀ x ∈ l.server.network.sent, Regular x) ?_ ?_
  · rintro l ⟨api, op, db, restarted, s, hrecover, rfl⟩ x hx
    rw [Server.recover_ok hrecover] at hx
    cases hx
  · intro l e l' hI hs x hx
    obtain ⟨more, hsent, hmore⟩ := Traffic.step_sendsOnly hs
    rw [hsent] at hx
    rcases List.mem_append.mp hx with hx | hx
    · exact hI x hx
    · cases hmore x hx with
      | client resp => exact Or.inl ⟨resp, rfl⟩
      | protocol _ | catchup _ _ | heartbeat _ _ => exact Or.inr rfl

variable [DecidableEq ι] {n : Inbox.Process ι OP Msg}
  {nodeTr : List (Machine.Transition (Inbox.Process ι OP Msg) (Inbox.Event ι Msg Storage))}

/-- In every run of the client ports and every run of a node that is connected on one of them, with its
stream cut off anywhere: what is printed for the connection is the beginning of what the node has said to
its client, answer by answer and in turn, so that the keys answered are those asked for, from the first
one on; and when nothing is left to read, all answers that have arrived are printed. -/
theorem responses_shown (laws : codec.Lawful newline)
    (hrun : (ClientPorts.machine clientPorts).Run tr s) (hnode : (Inbox.machine env).Run nodeTr n)
    {t : Machine.Transition Ports (Nat × TaskEvent)} (ht : t ∈ tr) {stream : Bytes} {ending : Ending}
    (haccept : t.event = (i, .accept stream ending))
    (hstream : stream <+: codec.lines newline (toApi n.loop.server.network.sent)) :
    ∃ heard : List APIResponse,
      printed codec (i, (t.after i).number) tr = heard.map .apiResponse ∧
      heard <+: nodeTr.flatMap said ∧
      answerKeys heard <+: getKeys (nodeTr.flatMap fun t => (Inbox.pushed t).map Prod.snd) ∧
      ((s i).number = (t.after i).number → (s i).unread = [] →
        heard.map .apiResponse =
          (codec.arrived (toApi n.loop.server.network.sent) stream).filter isApi) := by
  obtain ⟨-, unread, htaken, -⟩ := reading_run laws hrun t ht haccept hstream
  obtain ⟨_, hloop⟩ := Inbox.loop_run hnode
  have hprefix := htaken.begins
  rw [toApi_filter (regular_run hloop), Answers.toClient_run hnode] at hprefix
  obtain ⟨heard, hheard, hprinted⟩ := List.prefix_map_iff.mp hprefix
  have hkeys : answerKeys (nodeTr.flatMap said) <+: _ := ⟨_, Answers.answerKeys_run hnode⟩
  refine ⟨heard, hprinted, hheard, (hheard.filterMap _).trans hkeys, fun hnumber hnil => ?_⟩
  rw [← hprinted]
  exact printed_all laws hrun ht haccept hstream hnumber hnil

/-- In every run of the client ports and every run of a cluster with kills anywhere: whatever is printed
for a connection on which a process writes to its client, each value in it was decided. The process may
have been killed since. -/
theorem shown_decided {envs : Nat → Env} {logs : Nat → ConfigLog}
    {clusterTr : List (Machine.Transition (Net Nat (Loop OP Msg) (Message Msg))
      (Net.Event Nat (Crashes.Incident Msg Storage)))} {net : Net Nat (Loop OP Msg) (Message Msg)}
    (laws : codec.Lawful newline) (hrun : (ClientPorts.machine clientPorts).Run tr s)
    (hcluster : (Net.machine (Crashes.cluster envs)).Run clusterTr net)
    (hkept : ∀ t ∈ clusterTr, Crashes.Kept logs t)
    (hruns : ∀ p, Runs ((Machine.start clusterTr net).party p).server.omniPaxos (logs 0))
    (hempty : ∀ p, ((Machine.start clusterTr net).party p).server.database = Database.empty)
    {t : Machine.Transition Ports (Nat × TaskEvent)} (ht : t ∈ tr) {stream : Bytes} {ending : Ending}
    (haccept : t.event = (i, .accept stream ending)) {visited : Net Nat (Loop OP Msg) (Message Msg)}
    (hvisited : Machine.Visited clusterTr net visited) {p : Nat}
    (hstream : stream <+: codec.lines newline (toApi (visited.party p).server.network.sent)) :
    ∀ key value, .apiResponse (.get key value) ∈ printed codec (i, (t.after i).number) tr →
      Crashes.DecidedIn logs clusterTr net key value := by
  intro key value hmem
  obtain ⟨-, unread, htaken, -⟩ := reading_run laws hrun t ht haccept hstream
  obtain ⟨hsent, -⟩ := List.mem_filter.mp (htaken.begins.subset hmem)
  obtain ⟨⟨r, m⟩, hsent, rfl⟩ := List.mem_map.mp hsent
  obtain ⟨hsent, hr⟩ := List.mem_filter.mp hsent
  obtain rfl : r = 0 := by simpa using hr
  -- the process as it was when it had written what the connection carries
  obtain ⟨tr', hrun', hsub, hstart⟩ := hcluster.visited hvisited
  obtain ⟨nodes, hR, hall⟩ := Crashes.honest_run hrun' (fun t ht => hkept t (hsub t ht))
    (by rw [hstart]; exact hruns) (by rw [hstart]; exact hempty)
  obtain ⟨before, hbefore, hdecided⟩ := Crashes.answered_within hR hall hsent
  exact ⟨before, hvisited.trans hsub hbefore, hdecided⟩

def sampleAnswer (key : String) : APIResponse := .get key none

/-- A node answers two reads. -/
theorem answered_run : ∃ (tr : List (Machine.Transition (Inbox.Process Nat Replica ReplicaMsg)
      (Inbox.Event Nat ReplicaMsg Replica))) (n : Inbox.Process Nat Replica ReplicaMsg),
    (Inbox.machine sampleEnv).Run tr n ∧ n.loop.server.network.sent =
      [(0, .apiResponse (sampleAnswer "a")), (0, .apiResponse (sampleAnswer "b"))] := by
  have hrun := Machine.Run.nil (M := (Inbox.machine sampleEnv :
      Machine (Inbox.Process Nat Replica ReplicaMsg) (Inbox.Event Nat ReplicaMsg Replica)))
    (s := ⟨⟨_, .select, [], 0⟩, fun _ => ⟨0, .idle⟩⟩)
    ⟨⟨.error .client, Replica.opened (sampleLogs 0) 1 (.create []), Database.empty, false, _, rfl,
      rfl⟩, fun _ => rfl⟩
  have hrun := hrun.snoc (.connect (i := 0) rfl)
  have hrun := hrun.snoc (.read (m := ⟨0, .apiRequest (.get "a")⟩) (i := 0) rfl)
  have hrun := hrun.snoc (.push (i := 0) rfl)
  have hrun := hrun.snoc (.read (m := ⟨0, .apiRequest (.get "b")⟩) (i := 0) rfl)
  have hrun := hrun.snoc (.push (i := 0) rfl)
  have hrun := hrun.snoc (.loop (fun _ => by simp) (.wake rfl))
  have hrun := hrun.snoc (.loop (fun _ => by simp) (.process (w := sampleWorld (.opened (sampleLogs 1) 0
    (.create []))) rfl rfl))
  have hrun := hrun.snoc (.loop (fun _ => by simp) (.process (w := sampleWorld (.opened (sampleLogs 1) 0
    (.create []))) rfl rfl))
  exact ⟨_, _, hrun, rfl⟩

/-- The reader of 8001 reads a whole stream. -/
theorem read_run (stream : Bytes) :
    ∃ (tr : List (Machine.Transition Ports (Nat × TaskEvent))) (s : Ports), ∃ t ∈ tr,
    (ClientPorts.machine [8001]).Run tr s ∧ t.event = (8001, .accept stream .eof) ∧
    (s 8001).number = (t.after 8001).number ∧ (s 8001).unread = [] := by
  have hrun := Machine.Run.nil (M := ClientPorts.machine [8001]) rfl
  have hrun := hrun.snoc (.task (i := 8001) (by simp) (@TaskStep.accept _ stream .eof rfl))
  have hrun := hrun.snoc (.task (i := 8001) (by simp) (.register rfl))
  obtain ⟨more, s, hrun', hnumber, hunread⟩ := exists_read_all hrun (i := 8001) (by simp) rfl rfl
  exact ⟨_, s, _, List.mem_append_left _ (List.mem_append_left _ List.mem_cons_self), hrun', rfl,
    hnumber, hunread⟩

/-- The second answer is cut off on its way, and the first one is printed. -/
theorem responses_shown_sample : ∃ (tr : List (Machine.Transition Ports (Nat × TaskEvent)))
      (s : Ports) (nodeTr : List (Machine.Transition (Inbox.Process Nat Replica ReplicaMsg)
        (Inbox.Event Nat ReplicaMsg Replica))), ∃ t ∈ tr,
    (ClientPorts.machine [8001]).Run tr s ∧
    printed Peers.sampleCodec (8001, (t.after 8001).number) tr =
      [.apiResponse (sampleAnswer "a")] ∧
    ["a"] <+: getKeys (nodeTr.flatMap fun t => (Inbox.pushed t).map Prod.snd) := by
  let stream := Peers.cutLines (.apiResponse (sampleAnswer "a")) (.apiResponse (sampleAnswer "b"))
  obtain ⟨tr, s, t, ht, hrun, haccept, hnumber, hunread⟩ := read_run stream
  obtain ⟨nodeTr, n, hnode, hsent⟩ := answered_run
  have hapi : toApi n.loop.server.network.sent =
      [.apiResponse (sampleAnswer "a"), .apiResponse (sampleAnswer "b")] := by
    rw [hsent]
    rfl
  obtain ⟨heard, hprinted, -, hkeys, hall⟩ := responses_shown Peers.sampleCodec_lawful hrun hnode ht
    haccept (by rw [hapi]; exact Peers.cutLines_prefix _ _)
  have hheard := hall hnumber hunread
  rw [hapi, Peers.arrived_cutLines] at hheard
  have hone : heard = [sampleAnswer "a"] := by
    refine List.map_injective_iff.mpr (fun x y h => ?_) (hheard.trans rfl)
    cases h
    rfl
  subst hone
  exact ⟨tr, s, nodeTr, t, ht, hrun, hprinted, hkeys⟩

/-- A server that was killed in the middle of a state transfer answers a read, and the answer is
printed. -/
theorem shown_decided_sample : ∃ (tr : List (Machine.Transition Ports (Nat × TaskEvent))) (s : Ports)
      (clusterTr : List (Machine.Transition (Net Nat (Loop Replica ReplicaMsg) (Message ReplicaMsg))
        (Net.Event Nat (Crashes.Incident ReplicaMsg Replica))))
      (net : Net Nat (Loop Replica ReplicaMsg) (Message ReplicaMsg)), ∃ t ∈ tr,
    (ClientPorts.machine [8001]).Run tr s ∧
    printed Peers.sampleCodec (8001, (t.after 8001).number) tr =
      [.apiResponse (.get "a" (some "1"))] ∧
    Crashes.DecidedIn sampleLogs clusterTr net "a" (some "1") := by
  obtain ⟨tr, s, t, ht, hrun, haccept, hnumber, hunread⟩ :=
    read_run (Peers.sampleCodec.lines newline [.apiResponse (.get "a" (some "1"))])
  obtain ⟨clusterTr, net, hcluster, hruns, hempty, -, hsent⟩ := Crashes.kills_run
  have hapi : toApi (net.party 2).server.network.sent = [.apiResponse (.get "a" (some "1"))] := by
    rw [hsent]
    rfl
  have hprinted := printed_all Peers.sampleCodec_lawful hrun ht haccept List.prefix_rfl hnumber hunread
  rw [Codec.arrived, if_pos (by simp [Codec.lines])] at hprinted
  have hvalue := shown_decided Peers.sampleCodec_lawful hrun hcluster.run hcluster.keeps hruns hempty ht
    haccept .last (p := 2) (by rw [hapi]) "a" (some "1") (by rw [hprinted]; exact List.mem_cons_self)
  exact ⟨tr, s, clusterTr, net, t, ht, hrun, hprinted, hvalue⟩

end Responses
end OmniKV
