import OmniKV.Links

/-!
# Transport

From `Network::send` of one node to `incoming_msg_buf` of another, with the relay in between.

An `Endpoint` is the network of one node: the tasks of `Network::new`, and the calls of `send`, which
hands the message to `write_all` on the connection whose writer is stored and drops it if there is
none. `wired_conveys` puts the endpoints of all nodes at both ends of a relay that writes no fragment of
a message. A message that a peer task pushes has been handed to `send` for this node by the node the
task connects to, none is pushed twice, and messages that took the same connections on their way come
in order.
-/

namespace OmniKV

open Frames (newline readUntil Codec)

variable {Msg : Type} {env : Env} {codec : Codec (Message Msg) UInt8}

/-! ## What a peer task pushes -/

namespace Peers

/-- Of whatever messages the stream is the beginning, the task has pushed the first ones, and it has
the others still to read. -/
def Reads (codec : Codec (Message Msg) UInt8) (task : Task Msg) : Prop :=
  ∀ ms, task.stream <+: codec.lines newline ms → task.pushed <+: ms ∧
    (task.phase = .reading →
      ∃ coming, ms = task.pushed ++ coming ∧ task.unread <+: codec.lines newline coming)

variable {n n' : Network Msg} {e : Event Msg}

/-- A line that decodes, also one without a newline at the end of the stream, is the next message. -/
theorem decode_next (laws : codec.Lawful newline) {ms : List (Message Msg)} {unread : Bytes}
    {m : Message Msg} (hunread : unread <+: codec.lines newline ms) (hne : unread ≠ [])
    (hdecode : codec.decode (readUntil newline unread).1 = some m) :
    ∃ rest, ms = m :: rest ∧ (readUntil newline unread).2 <+: codec.lines newline rest := by
  by_cases hsep : newline ∈ unread
  · obtain ⟨m', rest, rfl, hline, hrest, -⟩ := laws.readUntil_lines hunread hsep
    rw [hline, laws.decode_line] at hdecode
    cases hdecode
    exact ⟨rest, rfl, hrest⟩
  · rw [Frames.readUntil_of_notMem hsep] at hdecode ⊢
    rcases laws.arrived_of_notMem hunread hsep with ⟨m', rfl, harrived⟩ | ⟨-, -, hnone⟩
    · rw [laws.decode_encode] at hdecode
      cases hdecode
      cases ms with
      | nil => cases harrived
      | cons x rest =>
        rw [Codec.arrived] at harrived
        split at harrived
        · obtain ⟨rfl, -⟩ := List.cons.inj harrived
          exact ⟨rest, rfl, List.nil_prefix⟩
        · cases harrived
    · rw [hnone hne] at hdecode
      cases hdecode

theorem Reads.idle {task : Task Msg} (h : Reads codec task) {phase : Phase}
    (hphase : phase ≠ .reading) : Reads codec { task with phase := phase } :=
  fun ms hms => ⟨(h ms hms).1, fun hp => absurd hp hphase⟩

theorem Reads.push (laws : codec.Lawful newline) {task : Task Msg} (h : Reads codec task)
    (hphase : task.phase = .reading) (hne : task.unread ≠ []) {m : Message Msg}
    (hdecode : codec.decode (readUntil newline task.unread).1 = some m) :
    Reads codec { task with
      unread := (readUntil newline task.unread).2
      pushed := task.pushed ++ [m] } := by
  intro ms hms
  obtain ⟨coming, rfl, hunread⟩ := (h ms hms).2 hphase
  obtain ⟨rest, rfl, hrest⟩ := decode_next laws hunread hne hdecode
  have hsplit : task.pushed ++ m :: rest = (task.pushed ++ [m]) ++ rest := by simp
  exact ⟨⟨rest, hsplit.symm⟩, fun _ => ⟨rest, hsplit, hrest⟩⟩

theorem reads_update (h : ∀ p, Reads codec (n.task p)) {p : Nat} {task : Task Msg}
    (htask : Reads codec task) (hn' : n'.task = Function.update n.task p task) (q : Nat) :
    Reads codec (n'.task q) := by
  rw [hn']
  by_cases hq : q = p
  · subst hq
    rwa [Function.update_self]
  · rw [Function.update_of_ne hq]
    exact h q

theorem Step.reads (laws : codec.Lawful newline) (h : ∀ p, Reads codec (n.task p))
    (hs : Step env codec n e n') : ∀ p, Reads codec (n'.task p) := by
  cases hs with
  | connect _ _ _ =>
    exact reads_update h (fun ms hms => ⟨List.nil_prefix, fun _ => ⟨ms, rfl, hms⟩⟩) rfl
  | refuse _ _ | panic _ _ _ _ | eof _ _ _ | error _ _ _ | wake _ =>
    exact reads_update h ((h _).idle (by simp)) rfl
  | push hphase hne _ hdecode => exact reads_update h ((h _).push laws hphase hne hdecode) rfl
  | getReceived => exact h

/-! ## Connections -/

/-- The connection whose writer the task has stored: it has removed none but at the end of a connection,
and none once it has panicked. -/
def Task.writer (task : Task Msg) : Option Nat :=
  match task.phase with
  | .reading | .dead => some task.number
  | .connecting | .sleeping => none

theorem Task.writer_isSome (task : Task Msg) :
    task.writer.isSome ↔ task.phase = .reading ∨ task.phase = .dead := by
  unfold Task.writer
  split <;> simp [*]

/-- The stored writers are those of the tasks. -/
def Current (n : Network Msg) : Prop := ∀ p, n.sockets p = (n.task p).writer

/-- A stored writer belongs to the connection its task had last. -/
theorem Current.number (h : Current n) {p k : Nat} (hk : n.sockets p = some k) :
    k = (n.task p).number := by
  rw [h p] at hk
  unfold Task.writer at hk
  split at hk
  · exact (Option.some.inj hk).symm
  · exact (Option.some.inj hk).symm
  · cases hk
  · cases hk

theorem Current.update (h : Current n) (q : Nat) (task : Task Msg) (p : Nat) :
    Function.update n.sockets q task.writer p = (Function.update n.task q task p).writer := by
  by_cases hp : p = q
  · subst hp
    rw [Function.update_self, Function.update_self]
  · rw [Function.update_of_ne hp, Function.update_of_ne hp, h p]

/-- A task that changes nothing about its writer leaves the stored one. -/
theorem Current.keep (h : Current n) {q : Nat} {task : Task Msg}
    (hwriter : task.writer = (n.task q).writer) (p : Nat) :
    n.sockets p = (Function.update n.task q task p).writer := by
  rw [← h.update q task p, hwriter, ← h q, Function.update_eq_self]

theorem Current.step (h : Current n) (hs : Step env codec n e n') : Current n' := by
  cases hs with
  | connect _ _ _ =>
    rename_i p sent stream ending _ _ _
    exact h.update p ⟨.reading, (n.task p).number + 1, sent, stream, ending, stream, []⟩
  | refuse _ hphase | push hphase _ _ _ | panic hphase _ _ _ | wake hphase =>
    exact h.keep (by simp [Task.writer, hphase])
  | eof _ _ _ | error _ _ _ =>
    rename_i p _ _ _
    exact h.update p { n.task p with phase := .sleeping }
  | getReceived => exact h

/-- The connections of a peer are numbered upwards. -/
theorem Step.number_le (hs : Step env codec n e n') (p : Nat) :
    (n.task p).number ≤ (n'.task p).number := by
  have hupdate : ∀ (q : Nat) (task : Task Msg), (n.task q).number ≤ task.number →
      (n.task p).number ≤ (Function.update n.task q task p).number := by
    intro q task hle
    by_cases hp : p = q
    · subst hp
      rwa [Function.update_self]
    · rw [Function.update_of_ne hp]
  cases hs with
  | connect _ _ _ => exact hupdate _ _ (Nat.le_succ _)
  | refuse _ _ | push _ _ _ _ | panic _ _ _ _ | eof _ _ _ | error _ _ _ | wake _ =>
    exact hupdate _ _ le_rfl
  | getReceived => exact le_rfl

end Peers

/-! ## The network of a node -/

/-- A message handed to `write_all` for a connection: its receiver, and its place among those handed to
`send` for this receiver. -/
structure Letter (Msg : Type) where
  receiver : Nat
  place : Nat
  msg : Message Msg

instance inhabitedLetter : Inhabited (Letter Msg) := ⟨⟨0, 0, .reconnect 0⟩⟩

/-- `conn` has each connection, as its task left it; `sends` and `writes` are records of the calls of
`send` and of the calls of `write_all` it has made on each connection. `send` ignores whether a write
succeeds: how much of what was handed to `write_all` a connection carries is left open. -/
structure Endpoint (Msg : Type) where
  network : Peers.Network Msg
  conn : ConnId → Peers.Task Msg
  sends : List (Nat × Message Msg)
  writes : ConnId → List (Letter Msg)

namespace Endpoint

def initial : Endpoint Msg where
  network := Peers.initial
  conn _ := Peers.initial.task 0
  sends := []
  writes _ := []

/-- What has been handed to `send` for `p`. -/
def sentTo (n : Endpoint Msg) (p : Nat) : List (Message Msg) :=
  (n.sends.filter fun x => x.1 = p).map Prod.snd

def messages (n : Endpoint Msg) (c : ConnId) : List (Message Msg) := (n.writes c).map Letter.msg

def send (n : Endpoint Msg) (receiver : Nat) (msg : Message Msg) : Endpoint Msg :=
  let called := { n with sends := n.sends ++ [(receiver, msg)] }
  -- the connection of the client API is none of a peer
  if receiver = 0 then called
  else
    match n.network.sockets receiver with
    | some k => { called with
        writes := Function.update n.writes (receiver, k)
          (n.writes (receiver, k) ++ [⟨receiver, (n.sentTo receiver).length, msg⟩]) }
    -- `Warning: No connection to peer, message not sent`
    | none => called

/-- A step of the tasks, or a call of `send`. -/
inductive Event (Msg : Type) where
  | network (e : Peers.Event Msg)
  | send (receiver : Nat) (msg : Message Msg)

inductive Step (env : Env) (codec : Codec (Message Msg) UInt8) :
    Endpoint Msg → Event Msg → Endpoint Msg → Prop where
  | network {n : Endpoint Msg} {e : Peers.Event Msg} {network : Peers.Network Msg} :
      Peers.Step env codec n.network e network →
      Step env codec n (.network e) { n with
        network := network
        conn := fun c => if (network.task c.1).number = c.2 then network.task c.1 else n.conn c }
  | send {n : Endpoint Msg} (receiver : Nat) (msg : Message Msg) :
      Step env codec n (.send receiver msg) (n.send receiver msg)

def machine (env : Env) (codec : Codec (Message Msg) UInt8) : Machine (Endpoint Msg) (Event Msg) where
  init n := n = initial
  step := Step env codec

/-- Every connection is handed some of the messages sent to its peer, in order, and the connections
follow each other. -/
structure Filed (n : Endpoint Msg) : Prop where
  current : Peers.Current n.network
  letters : ∀ c, ∀ x ∈ n.writes c, x.receiver = c.1 ∧ (n.sentTo c.1)[x.place]? = some x.msg
  sorted : ∀ c, (n.writes c).Pairwise fun x y => x.place < y.place
  apart : ∀ p k k', k < k' → ∀ x ∈ n.writes (p, k), ∀ y ∈ n.writes (p, k'), x.place < y.place
  unused : ∀ p k, (n.network.task p).number < k → n.writes (p, k) = []

variable {n n' : Endpoint Msg} {e : Event Msg}

theorem send_sends (n : Endpoint Msg) (receiver : Nat) (msg : Message Msg) :
    (n.send receiver msg).sends = n.sends ++ [(receiver, msg)] := by
  unfold send
  dsimp only
  split
  · rfl
  · split <;> rfl

theorem send_network (n : Endpoint Msg) (receiver : Nat) (msg : Message Msg) :
    (n.send receiver msg).network = n.network ∧ (n.send receiver msg).conn = n.conn := by
  unfold send
  dsimp only
  split
  · exact ⟨rfl, rfl⟩
  · split <;> exact ⟨rfl, rfl⟩

/-- A call of `send` adds to the current connection of its receiver at most. -/
theorem send_writes (n : Endpoint Msg) (receiver : Nat) (msg : Message Msg) (c : ConnId) :
    (n.send receiver msg).writes c = n.writes c ∨
      n.network.sockets c.1 = some c.2 ∧ receiver = c.1 ∧ (n.send receiver msg).writes c =
        n.writes c ++ [⟨c.1, (n.sentTo c.1).length, msg⟩] := by
  unfold send
  dsimp only
  split
  · exact Or.inl rfl
  · split
    · rename_i k hk
      by_cases hc : c = (receiver, k)
      · subst hc
        exact Or.inr ⟨hk, rfl, Function.update_self _ _ _⟩
      · exact Or.inl (Function.update_of_ne hc _ _)
    · exact Or.inl rfl

theorem sentTo_send (n : Endpoint Msg) (receiver : Nat) (msg : Message Msg) (p : Nat) :
    (n.send receiver msg).sentTo p = n.sentTo p ++ if receiver = p then [msg] else [] := by
  rw [sentTo, sentTo, send_sends, List.filter_append, List.map_append]
  by_cases hp : receiver = p <;> simp [hp]

theorem Filed.place_lt (h : Filed n) {c : ConnId} {x : Letter Msg} (hx : x ∈ n.writes c) :
    x.place < (n.sentTo c.1).length :=
  (List.getElem?_eq_some_iff.mp (h.letters c x hx).2).1

theorem Filed.send (h : Filed n) (receiver : Nat) (msg : Message Msg) :
    Filed (n.send receiver msg) := by
  have hold : ∀ c, ∀ x ∈ n.writes c,
      x.receiver = c.1 ∧ ((n.send receiver msg).sentTo c.1)[x.place]? = some x.msg := by
    intro c x hx
    refine ⟨(h.letters c x hx).1, ?_⟩
    rw [sentTo_send, List.getElem?_append_left (h.place_lt hx), (h.letters c x hx).2]
  refine ⟨by rw [(send_network _ _ _).1]; exact h.current, fun c x hx => ?_, fun c => ?_,
    fun p k k' hlt x hx y hy => ?_, fun p k hk => ?_⟩
  · rcases n.send_writes receiver msg c with hc | ⟨-, hreceiver, hc⟩
    · exact hold c x (hc ▸ hx)
    · rw [hc] at hx
      rcases List.mem_append.mp hx with hx | hx
      · exact hold c x hx
      · obtain rfl := List.mem_singleton.mp hx
        exact ⟨rfl, by simp [sentTo_send, hreceiver]⟩
  · rcases n.send_writes receiver msg c with hc | ⟨-, -, hc⟩
    · rw [hc]
      exact h.sorted c
    · rw [hc]
      refine List.pairwise_append.mpr ⟨h.sorted c, List.pairwise_singleton _ _, ?_⟩
      intro x hx y hy
      rw [List.mem_singleton.mp hy]
      exact h.place_lt hx
  · rcases n.send_writes receiver msg (p, k') with hc' | ⟨hk', -, hc'⟩
    · rw [hc'] at hy
      rcases n.send_writes receiver msg (p, k) with hc | ⟨hk, -, -⟩
      · exact h.apart p k k' hlt x (hc ▸ hx) y hy
      · -- the connections behind the current one are not used yet
        rw [h.unused p k' (h.current.number hk ▸ hlt)] at hy
        cases hy
    · have hx' : x ∈ n.writes (p, k) := by
        rcases n.send_writes receiver msg (p, k) with hc | ⟨hk, -, -⟩
        · exact hc ▸ hx
        · exact absurd (Option.some.inj (hk.symm.trans hk')) (Nat.ne_of_lt hlt)
      rw [hc'] at hy
      rcases List.mem_append.mp hy with hy | hy
      · exact h.apart p k k' hlt x hx' y hy
      · rw [List.mem_singleton.mp hy]
        exact h.place_lt (c := (p, k)) hx'
  · rw [(send_network _ _ _).1] at hk
    rcases n.send_writes receiver msg (p, k) with hc | ⟨hk', -, -⟩
    · rw [hc]
      exact h.unused p k hk
    · exact absurd (h.current.number hk') (Nat.ne_of_gt hk)

theorem Filed.step (h : Filed n) (hs : Step env codec n e n') : Filed n' := by
  cases hs with
  | network hs =>
    exact ⟨h.current.step hs, h.letters, h.sorted, h.apart, fun p k hk =>
      h.unused p k ((hs.number_le p).trans_lt hk)⟩
  | send receiver msg => exact h.send receiver msg

theorem Filed.run {tr : List (Machine.Transition (Endpoint Msg) (Event Msg))}
    (hrun : (machine env codec).Run tr n) : Filed n := by
  refine hrun.invariant' ?_ fun _ _ _ h hs => h.step hs
  rintro n rfl
  constructor <;> simp [initial, Peers.Current, Peers.Task.writer, Peers.initial]

/-! ## What is dropped -/

/-- The messages handed to `send` for `p` in a run while a writer for `p` was stored. -/
def sentStored (tr : List (Machine.Transition (Endpoint Msg) (Event Msg))) (p : Nat) :
    List (Message Msg) :=
  tr.filterMap fun t =>
    match t.event with
    | .send receiver msg =>
      if receiver = p ∧ (t.before.network.sockets p).isSome then some msg else none
    | .network _ => none

/-- All that has been handed to `write_all` for `p`, one connection after the other. -/
def allWrites (n : Endpoint Msg) (p : Nat) : List (Message Msg) :=
  (List.range ((n.network.task p).number + 1)).flatMap fun k => n.messages (p, k)

theorem Filed.messages_unused (h : Filed n) {p k : Nat} (hk : (n.network.task p).number < k) :
    n.messages (p, k) = [] := by
  rw [messages, h.unused p k hk]
  rfl

/-- Connections that are not in use yet add nothing. -/
theorem Filed.allWrites_of_le (h : Filed n) {p k : Nat} (hk : (n.network.task p).number ≤ k) :
    (List.range (k + 1)).flatMap (fun k => n.messages (p, k)) = n.allWrites p := by
  induction k, hk using Nat.le_induction with
  | base => rfl
  | succ k hle ih =>
    rw [List.range_succ, List.flatMap_append, ih, List.flatMap_singleton,
      h.messages_unused (Nat.lt_succ_of_le hle), List.append_nil]

theorem send_messages (n : Endpoint Msg) (receiver : Nat) (msg : Message Msg) {p : Nat}
    (hp : p ≠ 0) (k : Nat) : (n.send receiver msg).messages (p, k) = n.messages (p, k) ++
      if receiver = p ∧ n.network.sockets p = some k then [msg] else [] := by
  by_cases hreceiver : receiver = p
  · subst hreceiver
    unfold send
    dsimp only
    rw [if_neg hp]
    cases hk : n.network.sockets receiver with
    | none => simp [messages]
    | some k' =>
      by_cases hkk : k' = k
      · subst hkk
        simp [messages]
      · have hne : (receiver, k) ≠ (receiver, k') := by
          simpa using Ne.symm hkk
        simp [messages, hne, hkk]
  · rcases n.send_writes receiver msg (p, k) with hc | ⟨-, rfl, -⟩
    · simp [messages, hc, hreceiver]
    · exact absurd rfl hreceiver

theorem Filed.allWrites_send (h : Filed n) (receiver : Nat) (msg : Message Msg) {p : Nat}
    (hp : p ≠ 0) : (n.send receiver msg).allWrites p = n.allWrites p ++
      if receiver = p ∧ (n.network.sockets p).isSome then [msg] else [] := by
  have hsplit : ∀ n : Endpoint Msg, n.allWrites p =
      (List.range (n.network.task p).number).flatMap (fun k => n.messages (p, k)) ++
        n.messages (p, (n.network.task p).number) := fun n => by
    rw [allWrites, List.range_succ, List.flatMap_append, List.flatMap_singleton]
  -- only the connection the task had last can have its writer stored
  have hold : (List.range (n.network.task p).number).flatMap
      (fun k => (n.send receiver msg).messages (p, k)) =
      (List.range (n.network.task p).number).flatMap fun k => n.messages (p, k) := by
    refine List.flatMap_congr fun k hk => ?_
    rw [send_messages n receiver msg hp, if_neg, List.append_nil]
    rintro ⟨-, hsocket⟩
    exact absurd (h.current.number hsocket) (Nat.ne_of_lt (List.mem_range.mp hk))
  have hlast : n.network.sockets p = some (n.network.task p).number ↔
      (n.network.sockets p).isSome := by
    constructor
    · intro hsocket
      rw [hsocket]
      rfl
    · intro hsome
      obtain ⟨k, hk⟩ := Option.isSome_iff_exists.mp hsome
      rw [hk, h.current.number hk]
  rw [hsplit, hsplit n, (send_network n receiver msg).1, hold, send_messages n receiver msg hp,
    List.append_assoc]
  simp only [hlast]

theorem sentStored_snoc (tr : List (Machine.Transition (Endpoint Msg) (Event Msg)))
    (t : Machine.Transition (Endpoint Msg) (Event Msg)) (p : Nat) :
    sentStored (tr ++ [t]) p = sentStored tr p ++ sentStored [t] p := by
  rw [sentStored, List.filterMap_append]
  rfl

theorem allWrites_eq {tr : List (Machine.Transition (Endpoint Msg) (Event Msg))}
    (hrun : (machine env codec).Run tr n) {p : Nat} (hp : p ≠ 0) :
    n.allWrites p = sentStored tr p := by
  induction hrun with
  | nil h =>
    rw [h]
    rfl
  | @snoc tr n n' e hrun hs ih =>
    have hfiled := Filed.run hrun
    rw [sentStored_snoc, ← ih]
    cases hs with
    | network hs =>
      rw [← hfiled.allWrites_of_le (hs.number_le p)]
      exact (List.append_nil _).symm
    | send receiver msg =>
      rw [hfiled.allWrites_send receiver msg hp]
      by_cases hc : receiver = p ∧ (n.network.sockets p).isSome = true <;> simp [sentStored, hc]

/-- Over a whole run, what is handed to `write_all` for a peer, one connection after the other, are
exactly the messages sent while a writer for the peer was stored, in order: while its task had a
connection, or once it had panicked. A stored writer need not work. -/
theorem allWrites_run {tr : List (Machine.Transition (Endpoint Msg) (Event Msg))}
    (hrun : (machine env codec).Run tr n) {p : Nat} (hp : p ≠ 0) :
    n.allWrites p = sentStored tr p ∧ ∀ t ∈ tr, (t.before.network.sockets p).isSome ↔
      (t.before.network.task p).phase = .reading ∨ (t.before.network.task p).phase = .dead := by
  refine ⟨allWrites_eq hrun hp, fun t ht => ?_⟩
  have hinit : ∀ n : Endpoint Msg, (machine env codec).init n → Filed n := fun n h => .run (.nil h)
  have hfiled := (hrun.of_mem (C := fun _ => True) hinit (fun _ _ _ h hs _ => h.step hs)
    (fun _ _ => trivial) t ht).1
  rw [hfiled.current p, Peers.Task.writer_isSome]

/-- A message sent before node 1 has connected for node 2, one sent on the first connection, one sent
when it has ended, and one on the second. -/
theorem allWrites_sample : ∃ tr n,
    (machine (sampleNodes 1) Peers.sampleCodec).Run tr n ∧ n.sentTo 2 =
      [.reconnect 1, .reconnect 2, .reconnect 3, .reconnect 4] ∧
    n.messages (2, 2) = [.reconnect 4] ∧ n.allWrites 2 = sentStored tr 2 ∧
    sentStored tr 2 = [.reconnect 2, .reconnect 4] := by
  have hrun := Machine.Run.nil (M := machine (sampleNodes 1) Peers.sampleCodec) (s := initial) rfl
  have hrun := hrun.snoc (.send 2 (.reconnect 1))
  have hrun := hrun.snoc (.network (e := .connect 2 [] [] .eof)
    (.connect (by decide) rfl List.nil_prefix))
  have hrun := hrun.snoc (.send 2 (.reconnect 2))
  have hrun := hrun.snoc (.network (e := .eof 2) (.eof rfl rfl rfl))
  have hrun := hrun.snoc (.send 2 (.reconnect 3))
  have hrun := hrun.snoc (.network (e := .wake 2) (.wake rfl))
  have hrun := hrun.snoc (.network (e := .connect 2 [] [] .eof)
    (.connect (by decide) rfl List.nil_prefix))
  have hrun := hrun.snoc (.send 2 (.reconnect 4))
  exact ⟨_, _, hrun, rfl, rfl, (allWrites_run hrun (by decide)).1, rfl⟩

theorem reads_step (laws : codec.Lawful newline)
    (h : (∀ p, Peers.Reads codec (n.network.task p)) ∧ ∀ c, Peers.Reads codec (n.conn c))
    (hs : Step env codec n e n') :
    (∀ p, Peers.Reads codec (n'.network.task p)) ∧ ∀ c, Peers.Reads codec (n'.conn c) := by
  cases hs with
  | network hs =>
    have htask := hs.reads laws h.1
    refine ⟨htask, fun c => ?_⟩
    dsimp only
    split
    · exact htask c.1
    · exact h.2 c
  | send receiver msg =>
    rwa [(send_network n receiver msg).1, (send_network n receiver msg).2]

theorem reads_run (laws : codec.Lawful newline)
    {tr : List (Machine.Transition (Endpoint Msg) (Event Msg))}
    (hrun : (machine env codec).Run tr n) (c : ConnId) : Peers.Reads codec (n.conn c) := by
  have hread := hrun.invariant' (I := fun n : Endpoint Msg =>
    (∀ p, Peers.Reads codec (n.network.task p)) ∧ ∀ c, Peers.Reads codec (n.conn c)) ?_
    (fun _ _ _ h hs => reads_step laws h hs)
  · exact hread.2 c
  · rintro n rfl
    refine ⟨fun p => ?_, fun c => ?_⟩ <;>
      exact fun ms _ => ⟨List.nil_prefix, fun h => by cases h⟩

/-- The place of the `i`-th message of a connection among those sent to its peer. -/
def place (n : Endpoint Msg) (c : ConnId) (i : Nat) : Nat := ((n.writes c)[i]?.getD default).place

theorem exists_letter {c : ConnId} {i : Nat} (hi : i < (n.messages c).length) :
    ∃ x ∈ n.writes c, x.place = n.place c i := by
  have hi' : i < (n.writes c).length := by simpa [messages] using hi
  refine ⟨_, List.getElem_mem hi', ?_⟩
  rw [place, List.getElem?_eq_getElem hi', Option.getD_some]

theorem Filed.place_lt_place (h : Filed n) {p k k' i i' : Nat} (hlt : k < k' ∨ k = k' ∧ i < i')
    (hi : i < (n.messages (p, k)).length) (hi' : i' < (n.messages (p, k')).length) :
    n.place (p, k) i < n.place (p, k') i' := by
  rw [messages, List.length_map] at hi hi'
  rw [place, place, List.getElem?_eq_getElem hi, List.getElem?_eq_getElem hi']
  rcases hlt with hlt | ⟨rfl, hlt⟩
  · exact h.apart p k k' hlt _ (List.getElem_mem hi) _ (List.getElem_mem hi')
  · exact List.pairwise_iff_getElem.mp (h.sorted (p, k)) i i' hi hi' hlt

/-- What the nodes hand to `write_all` is what they were told to send. -/
theorem sends_convey {nodes : Nat → Endpoint Msg} (h : ∀ a, Filed (nodes a)) :
    Conveys (fun x : Nat × Nat => (nodes x.1).sentTo x.2)
      (fun y : Nat × ConnId => (nodes y.1).messages y.2)
      fun y i => ((y.1, y.2.1), (nodes y.1).place y.2 i) where
  message y i hi := by
    have hi' : i < ((nodes y.1).writes y.2).length := by simpa [messages] using hi
    have hletter := (h y.1).letters y.2 _ (List.getElem_mem hi')
    simp only [messages, place, List.getElem?_map, List.getElem?_eq_getElem hi', Option.map_some,
      Option.getD_some]
    exact hletter.2.symm
  once := by
    rintro ⟨a, p, k⟩ ⟨a', p', k'⟩ i i' hi hi' heq
    obtain ⟨hnodes, hplace⟩ := Prod.mk.inj heq
    obtain ⟨rfl, rfl⟩ := Prod.mk.inj hnodes
    have hnot : ∀ k k' i i', i < ((nodes a).messages (p, k)).length →
        i' < ((nodes a).messages (p, k')).length →
        (nodes a).place (p, k) i = (nodes a).place (p, k') i' → ¬(k < k' ∨ k = k' ∧ i < i') :=
      fun k k' i i' hi hi' heq hlt => absurd heq (Nat.ne_of_lt ((h a).place_lt_place hlt hi hi'))
    have hle := hnot k k' i i' hi hi' hplace
    have hge := hnot k' k i' i hi' hi hplace.symm
    obtain ⟨rfl, rfl⟩ : k = k' ∧ i = i' := by omega
    exact ⟨rfl, rfl⟩

end Endpoint

/-! ## All nodes -/

namespace Transport

/-- The connections of the relay and those of the nodes, plugged together: `plug c` is the node that
has connected, and the connection it has for it. -/
structure Wired (codec : Codec (Message Msg) UInt8) (mapping : Nat → Option Nat)
    (plug : ConnId → Nat × ConnId) (nodes : Nat → Endpoint Msg)
    (tr : List (Machine.Transition Relay Relay.Event)) (s : Relay) : Prop where
  /-- The mapped port of the port on which `a` connects for `b` is the one on which `b` does for `a`. -/
  opposite : ∀ c d : ConnId, mapping c.1 = some d.1 →
    (plug c).1 = (plug d).2.1 ∧ (plug c).2.1 = (plug d).1
  inj : ∀ c c' : ConnId, (mapping c.1).isSome → (mapping c'.1).isSome → plug c = plug c' → c = c'
  /-- A connection brings the relay what its node hands to `write_all`, up to some byte: where a write
  fails, or where the connection ends. -/
  brings : Links.Streams codec tr fun c => (nodes (plug c).1).messages (plug c).2
  /-- A connection brings its node what the relay writes to it, up to some byte. -/
  takes : ∀ a c, ((nodes a).conn c).stream = [] ∨
    ∃ d, plug d = (a, c) ∧ ((nodes a).conn c).stream <+: Relay.bytes (s.conn d)

variable {mapping : Nat → Option Nat} {capacity centralCapacity : Nat}
  {tr : List (Machine.Transition Relay Relay.Event)} {s : Relay} {plug : ConnId → Nat × ConnId}
  {nodes : Nat → Endpoint Msg}

/-- Where the messages pushed come from: `origin` is the place of a message among those handed to `send`,
and `link` the number of the connection it was handed to. -/
structure Delivered (nodes : Nat → Endpoint Msg)
    (origin : Nat × ConnId → Nat → (Nat × Nat) × Nat) (link : Nat × ConnId → Nat → Nat) : Prop where
  conveys : Conveys (fun x => (nodes x.1).sentTo x.2) (fun y => ((nodes y.1).conn y.2).pushed) origin
  letter : ∀ y i, i < ((nodes y.1).conn y.2).pushed.length → (origin y i).1 = (y.2.1, y.1) ∧
    ∃ x ∈ (nodes y.2.1).writes (y.1, link y i), x.place = (origin y i).2
  order : ∀ y i j, i < j → j < ((nodes y.1).conn y.2).pushed.length → link y i ≤ link y j →
    (origin y i).2 < (origin y j).2

theorem Wired.delivered (laws : codec.Lawful newline) {env : Nat → Env}
    (hnodes : ∀ a, ∃ tr, (Endpoint.machine (env a) codec).Run tr (nodes a))
    (hrun : (Relay.machine mapping capacity centralCapacity).Run tr s)
    (hwrites : ∀ t ∈ tr, Relay.WritesWhole t) (hwired : Wired codec mapping plug nodes tr s) :
    ∃ origin link, Delivered nodes origin link := by
  have hfiled : ∀ a, Endpoint.Filed (nodes a) := fun a => by
    obtain ⟨tr, hrun⟩ := hnodes a
    exact .run hrun
  obtain ⟨received, origin, hbytes, hconveys, horder, hroute⟩ :=
    Links.relay_conveys laws hrun hwrites hwired.brings
  have hfar : ∀ y : Nat × ConnId, ∃ d, ((nodes y.1).conn y.2).pushed ≠ [] →
      plug d = y ∧ ((nodes y.1).conn y.2).pushed <+: received d := by
    intro y
    obtain ⟨tr, hrun⟩ := hnodes y.1
    have hreads := Endpoint.reads_run laws hrun y.2
    rcases hwired.takes y.1 y.2 with hnone | ⟨d, hd, hstream⟩
    · refine ⟨(0, 0), fun hne => absurd ?_ hne⟩
      exact List.prefix_nil.mp (hreads [] (by rw [hnone]; exact List.nil_prefix)).1
    · rw [hbytes] at hstream
      exact ⟨d, fun _ => ⟨hd, (hreads _ hstream).1⟩⟩
  choose far hfar using hfar
  have hmapped : ∀ y i, i < ((nodes y.1).conn y.2).pushed.length →
      mapping (origin (far y) i).1.1 = some (far y).1 := by
    intro y i hi
    have hpre := (hfar y (List.ne_nil_of_length_pos (Nat.zero_lt_of_lt hi))).2
    exact hroute _ _ (hi.trans_le hpre.length_le)
  -- the connection of the sender that a message has taken
  have hplug : ∀ y i, i < ((nodes y.1).conn y.2).pushed.length →
      plug (origin (far y) i).1 = (y.2.1, (y.1, (plug (origin (far y) i).1).2.2)) := by
    intro y i hi
    have hy := (hfar y (List.ne_nil_of_length_pos (Nat.zero_lt_of_lt hi))).1
    obtain ⟨hnode, hpeer⟩ := hwired.opposite _ (far y) (hmapped y i hi)
    rw [hy] at hnode hpeer
    exact Prod.ext hnode (Prod.ext hpeer rfl)
  have hsame : ∀ y y' i i', i < ((nodes y.1).conn y.2).pushed.length →
      i' < ((nodes y'.1).conn y'.2).pushed.length →
      plug (origin (far y) i).1 = plug (origin (far y') i').1 →
      (origin (far y) i).1 = (origin (far y') i').1 := fun y y' i i' hi hi' =>
    hwired.inj _ _ (by simp [hmapped y i hi]) (by simp [hmapped y' i' hi'])
  have hread : Conveys (fun c => (nodes (plug c).1).messages (plug c).2)
      (fun y : Nat × ConnId => ((nodes y.1).conn y.2).pushed) fun y i => origin (far y) i :=
    hconveys.read_by (fun y hne => (hfar y hne).2) fun y y' hne hne' heq => by
      rw [← (hfar y hne).1, ← (hfar y' hne').1, heq]
  have hlabelled : Conveys (fun y : Nat × ConnId => (nodes y.1).messages y.2)
      (fun y : Nat × ConnId => ((nodes y.1).conn y.2).pushed)
      fun y i => (plug (origin (far y) i).1, (origin (far y) i).2) :=
    hread.relabel (f := plug) hsame
  refine ⟨_, fun y i => (plug (origin (far y) i).1).2.2,
    (Endpoint.sends_convey hfiled).trans hlabelled, fun y i hi => ?_, fun y i j hij hj hlink => ?_⟩
  · have hletter := Endpoint.exists_letter (hlabelled.place_lt hi)
    constructor
    · show ((plug (origin (far y) i).1).1, (plug (origin (far y) i).1).2.1) = _
      rw [hplug y i hi]
    · show ∃ x ∈ _, Letter.place x =
        (nodes (plug (origin (far y) i).1).1).place (plug (origin (far y) i).1).2 _
      rw [hplug y i hi] at hletter ⊢
      exact hletter
  · have hi := hij.trans hj
    have hlti := hlabelled.place_lt hi
    have hltj := hlabelled.place_lt hj
    show (nodes (plug (origin (far y) i).1).1).place (plug (origin (far y) i).1).2 _ <
      (nodes (plug (origin (far y) j).1).1).place (plug (origin (far y) j).1).2 _
    rw [hplug y i hi] at hlti ⊢
    rw [hplug y j hj] at hltj ⊢
    refine (hfiled _).place_lt_place ?_ hlti hltj
    rcases Nat.lt_or_eq_of_le hlink with hlt | heq
    · exact Or.inl hlt
    · -- on one connection, the order is that of the relay
      refine Or.inr ⟨heq, ?_⟩
      have hne := List.ne_nil_of_length_pos (Nat.zero_lt_of_lt hi)
      refine horder (far y) i j hij (hj.trans_le (hfar y hne).2.length_le) (hsame y y i j hi hj ?_)
      rw [hplug y i hi, hplug y j hj]
      exact congrArg (fun k => (y.2.1, y.1, k)) heq

/-- Every message that a peer task pushes has been handed to `send` for this node by the task's peer,
and none is pushed twice. Of two messages that a task pushes from one connection, the first was sent
first, unless the sender had handed the second to an earlier connection. -/
theorem wired_conveys (laws : codec.Lawful newline) {env : Nat → Env}
    (hnodes : ∀ a, ∃ tr, (Endpoint.machine (env a) codec).Run tr (nodes a))
    (hrun : (Relay.machine mapping capacity centralCapacity).Run tr s)
    (hwrites : ∀ t ∈ tr, Relay.WritesWhole t) (hwired : Wired codec mapping plug nodes tr s) :
    ∃ (origin : Nat × ConnId → Nat → (Nat × Nat) × Nat) (link : Nat × ConnId → Nat → Nat),
      Conveys (fun x => (nodes x.1).sentTo x.2) (fun y => ((nodes y.1).conn y.2).pushed) origin ∧
      (∀ y i, i < ((nodes y.1).conn y.2).pushed.length → (origin y i).1 = (y.2.1, y.1) ∧
        ∃ x ∈ (nodes y.2.1).writes (y.1, link y i), x.place = (origin y i).2) ∧
      ∀ y i j, i < j → j < ((nodes y.1).conn y.2).pushed.length → link y i ≤ link y j →
        (origin y i).2 < (origin y j).2 := by
  obtain ⟨origin, link, h⟩ := hwired.delivered laws hnodes hrun hwrites
  exact ⟨origin, link, h.conveys, h.letter, h.order⟩

/-! ## A message from node 1 to node 2 -/

def samplePlug (c : ConnId) : Nat × ConnId :=
  if c.1 = 8012 then (1, (2, c.2)) else if c.1 = 8021 then (2, (1, c.2)) else (0, c)

/-- Node 1 connects for node 2, and sends a message to both others. -/
theorem sender_run (codec : Codec (Message ReplicaMsg) UInt8) (m : Message ReplicaMsg) :
    ∃ tr n, (Endpoint.machine (sampleNodes 1) codec).Run tr n ∧ n.messages (2, 1) = [m] ∧
      n.sends = [(2, m), (3, m)] ∧ ∀ c, (n.conn c).stream = [] := by
  have hrun := Machine.Run.nil (M := Endpoint.machine (sampleNodes 1) codec)
    (s := Endpoint.initial) rfl
  have hrun := hrun.snoc (.network (e := .connect 2 [] [] .error)
    (.connect (by decide) rfl List.nil_prefix))
  have hrun := hrun.snoc (.send 2 m)
  have hrun := hrun.snoc (.send 3 m)
  refine ⟨_, _, hrun, rfl, rfl, fun c => ?_⟩
  rw [(Endpoint.send_network _ _ _).2, (Endpoint.send_network _ _ _).2]
  by_cases hc : c.1 = 2
  · by_cases hk : 1 = c.2 <;> simp [Endpoint.initial, Peers.initial, hc, hk]
  · simp [Endpoint.initial, Peers.initial, hc]

/-- Node 2 connects for node 1, and reads the message. -/
theorem receiver_run {codec : Codec (Message ReplicaMsg) UInt8} (laws : codec.Lawful newline)
    (m : Message ReplicaMsg) : ∃ tr n, (Endpoint.machine (sampleNodes 2) codec).Run tr n ∧
      (n.conn (1, 1)).stream = codec.lines newline [m] ∧ (n.conn (1, 1)).pushed = [m] ∧
      (n.network.task 1).number = 1 ∧ n.sends = [] ∧ ∀ c, c ≠ (1, 1) → (n.conn c).stream = [] := by
  have hline : codec.lines newline [m] = codec.encode m ++ newline :: [] := Codec.lines_cons m []
  have hrun := Machine.Run.nil (M := Endpoint.machine (sampleNodes 2) codec)
    (s := Endpoint.initial) rfl
  have hrun := hrun.snoc (.network (e := .connect 1 [m] (codec.lines newline [m]) .eof)
    (.connect (by decide) rfl List.prefix_rfl))
  have hrun := hrun.snoc (.network (e := .read 1) (.push (m := m) rfl
    (by show codec.lines newline [m] ≠ []; rw [hline]; simp) (Or.inr rfl)
    (by
      show codec.decode (readUntil newline (codec.lines newline [m])).1 = some m
      rw [hline, Frames.readUntil_frame (laws.sep_notMem m), laws.decode_line])))
  refine ⟨_, _, hrun, rfl, rfl, rfl, rfl, fun c hc => ?_⟩
  obtain ⟨p, k⟩ := c
  by_cases hp : p = 1
  · subst hp
    have hk : 1 ≠ k := by
      rintro rfl
      exact hc rfl
    simp [Endpoint.initial, Peers.initial, hk]
  · simp [Endpoint.initial, Peers.initial, hp]

theorem sampleMapping_cases {p q : Nat} (h : Relay.sampleMapping p = some q) :
    p = 8012 ∧ q = 8021 ∨ p = 8021 ∧ q = 8012 := by
  unfold Relay.sampleMapping at h
  split at h
  · rename_i hp
    exact Or.inl ⟨hp, (Option.some.inj h).symm⟩
  · split at h
    · rename_i hp
      exact Or.inr ⟨hp, (Option.some.inj h).symm⟩
    · cases h

/-- The two nodes at both ends of a relay that has passed the line of the message on. -/
theorem line_carried {codec : Codec (Message ReplicaMsg) UInt8} (laws : codec.Lawful newline)
    {m : Message ReplicaMsg} (hline : codec.lines newline [m] = Peers.debugJson ++ [newline])
    (plug : ConnId → Nat × ConnId) (hsender : plug (8012, 1) = (1, (2, 1)))
    (hreceiver : plug (8021, 1) = (2, (1, 1))) :
    ∃ (tr : List (Machine.Transition Relay Relay.Event)) (s : Relay) (nodes : Nat → Endpoint ReplicaMsg),
      Relay.SampleRun tr s ∧ (∀ t ∈ tr, Relay.WritesWhole t) ∧
      (∀ a, ∃ tr, (Endpoint.machine (sampleNodes a) codec).Run tr (nodes a)) ∧
      Links.Streams codec tr (fun c => (nodes (plug c).1).messages (plug c).2) ∧
      (∀ a c, ((nodes a).conn c).stream = [] ∨
        ∃ d, plug d = (a, c) ∧ ((nodes a).conn c).stream <+: Relay.bytes (s.conn d)) ∧
      ((nodes 2).conn (1, 1)).pushed = [m] ∧ ((nodes 2).network.task 1).number = 1 ∧
      (nodes 1).sends = [(2, m), (3, m)] ∧ ∀ a, a ≠ 1 → (nodes a).sends = [] := by
  obtain ⟨tr₁, n₁, hrun₁, hmessages, hsends, hnone₁⟩ := sender_run codec m
  obtain ⟨tr₂, n₂, hrun₂, hstream, hpushed, hnumber, hsends₂, hnone₂⟩ := receiver_run laws m
  obtain ⟨tr, s, hrun, hbytes, hwrites, haccepts⟩ := Links.line_run
  let nodes : Nat → Endpoint ReplicaMsg := fun a =>
    if a = 1 then n₁ else if a = 2 then n₂ else Endpoint.initial
  have hnodes : ∀ a, ∃ tr, (Endpoint.machine (sampleNodes a) codec).Run tr (nodes a) := by
    intro a
    by_cases h₁ : a = 1
    · subst h₁
      exact ⟨tr₁, hrun₁⟩
    · by_cases h₂ : a = 2
      · subst h₂
        exact ⟨tr₂, hrun₂⟩
      · simp only [nodes, if_neg h₁, if_neg h₂]
        exact ⟨[], .nil rfl⟩
  refine ⟨tr, s, nodes, hrun, hwrites, hnodes, ?_, ?_, hpushed, hnumber, hsends, fun a h₁ => ?_⟩
  · intro t ht p stream ending he
    rcases haccepts t ht p stream ending he with rfl | ⟨hc, rfl⟩
    · exact List.nil_prefix
    · rw [hc]
      dsimp only
      rw [hsender]
      show _ <+: codec.lines newline (n₁.messages (2, 1))
      rw [hmessages, hline]
  · intro a c
    by_cases h₁ : a = 1
    · subst h₁
      exact Or.inl (hnone₁ c)
    · by_cases h₂ : a = 2
      · subst h₂
        by_cases hc : c = (1, 1)
        · subst hc
          refine Or.inr ⟨(8021, 1), hreceiver, ?_⟩
          rw [hbytes, ← hline, ← hstream]
          exact List.prefix_rfl
        · exact Or.inl (hnone₂ c hc)
      · refine Or.inl ?_
        simp only [nodes, if_neg h₁, if_neg h₂]
        rfl
  · by_cases h₂ : a = 2
    · subst h₂
      exact hsends₂
    · simp only [nodes, if_neg h₁, if_neg h₂]
      rfl

theorem line_wired {codec : Codec (Message ReplicaMsg) UInt8} (laws : codec.Lawful newline)
    {m : Message ReplicaMsg} (hline : codec.lines newline [m] = Peers.debugJson ++ [newline]) :
    ∃ (tr : List (Machine.Transition Relay Relay.Event)) (s : Relay) (nodes : Nat → Endpoint ReplicaMsg),
      Relay.SampleRun tr s ∧ (∀ t ∈ tr, Relay.WritesWhole t) ∧
      (∀ a, ∃ tr, (Endpoint.machine (sampleNodes a) codec).Run tr (nodes a)) ∧
      Wired codec Relay.sampleMapping samplePlug nodes tr s ∧
      ((nodes 2).conn (1, 1)).pushed = [m] ∧ ((nodes 2).network.task 1).number = 1 ∧
      (nodes 1).sends = [(2, m), (3, m)] ∧ ∀ a, a ≠ 1 → (nodes a).sends = [] := by
  obtain ⟨tr, s, nodes, hrun, hwrites, hnodes, hbrings, htakes, hread⟩ :=
    line_carried laws hline samplePlug rfl rfl
  refine ⟨tr, s, nodes, hrun, hwrites, hnodes, ⟨?_, ?_, hbrings, htakes⟩, hread⟩
  · rintro ⟨p, k⟩ ⟨q, l⟩ h
    rcases sampleMapping_cases h with ⟨hp, hq⟩ | ⟨hp, hq⟩ <;>
      simp only at hp hq <;> subst hp hq <;> exact ⟨rfl, rfl⟩
  · rintro ⟨p, k⟩ ⟨p', k'⟩ hp hp' heq
    obtain ⟨q, hq⟩ := Option.isSome_iff_exists.mp hp
    obtain ⟨q', hq'⟩ := Option.isSome_iff_exists.mp hp'
    rcases sampleMapping_cases hq with ⟨h, -⟩ | ⟨h, -⟩ <;>
      rcases sampleMapping_cases hq' with ⟨h', -⟩ | ⟨h', -⟩ <;>
      simp only at h h' <;> subst h h' <;> simp_all [samplePlug]

/-- The message that node 2 has pushed is the first one that node 1 has sent for node 2. -/
theorem wired_conveys_sample : ∃ (tr : List (Machine.Transition Relay Relay.Event)) (s : Relay)
    (nodes : Nat → Endpoint ReplicaMsg) (origin : Nat × ConnId → Nat → (Nat × Nat) × Nat),
    Relay.SampleRun tr s ∧ Wired Peers.sampleCodec Relay.sampleMapping samplePlug nodes tr s ∧
    ((nodes 2).conn (1, 1)).pushed = [.debug "A"] ∧ (origin (2, (1, 1)) 0).1 = (1, 2) ∧
    Conveys (fun x => (nodes x.1).sentTo x.2) (fun y => ((nodes y.1).conn y.2).pushed) origin := by
  obtain ⟨tr, s, nodes, hrun, hwrites, hnodes, hwired, hpushed, -⟩ :=
    line_wired Peers.sampleCodec_lawful Peers.sample_lines
  obtain ⟨origin, link, hconveys, horigin, -⟩ :=
    wired_conveys Peers.sampleCodec_lawful hnodes hrun hwrites hwired
  refine ⟨tr, s, nodes, origin, hrun, hwired, hpushed, ?_, hconveys⟩
  refine (horigin (2, (1, 1)) 0 ?_).1
  simp [hpushed]

end Transport
end OmniKV
