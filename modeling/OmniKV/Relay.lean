import OmniKV.Database
import OmniKV.Lib.Broadcast
import OmniKV.Lib.Frames
import OmniKV.Lib.Machine

/-!
# Relay

The network actor between the nodes (`run` in its `network.rs`): for each mapped port a handler that
takes one connection after the other, for each connection a task that reads it and a task that writes
it, and the central actor, which passes each message on to the channel of its destination port.

The channel registered for the `k`-th connection of a port has number `k`; number 0 is the channel a
port has before its first connection. A step is what one task does between two points where another
task can see it. A connection's whole incoming stream is fixed when it is accepted; how late it arrives
shows in when it is read.

`sends` and `read` are records: what the central actor has sent, with the channel, and what has been
read from all connections. The loop over `partitions` is left out here: its `continue` goes on with the
inner loop, so it drops nothing (`Partition.run_eq_sends`).
-/

namespace OmniKV

open Frames (newline readUntil Ending)

/-- A message on its way through the actor, numbered in the order of the reads. `cut` marks what was
left of a stream that ended inside a message. -/
structure Parcel where
  id : Nat
  fromPort : Nat
  toPort : Nat
  data : Bytes
  cut : Bool
  deriving DecidableEq

/-- The task that reads a connection, with the message it waits to push to the central actor. -/
inductive Receiver where
  | waiting
  | reading
  | holding (m : Parcel)
  | ended

/-- The task that writes a connection. -/
inductive Sender where
  | waiting
  | spawned
  | subscribed
  | ended
  deriving DecidableEq

/-- A connection: the bytes still to be read and how they end; how many messages had been sent when
its writing task subscribed, what that task has written, and the beginning of a message on which a
write broke off. -/
structure Conn where
  unread : Bytes
  ending : Ending
  receiver : Receiver
  sender : Sender
  start : Nat
  written : List Parcel
  torn : Bytes

def Conn.opened (stream : Bytes) (ending : Ending) : Conn where
  unread := stream
  ending := ending
  receiver := .waiting
  sender := .waiting
  start := 0
  written := []
  torn := []

/-- A port and the number of one of its connections, or of its channel. -/
abbrev ConnId := Nat × Nat

/-- Where the handler of a port stands, with the connection it has accepted last. -/
inductive Handler where
  | absent
  | listening
  | accepted
  | registered
  | senderSpawned
  | running
  | cleaning
  deriving DecidableEq

/-- The handler has registered the channel of its connection and not removed it yet. -/
def Handler.Registered : Handler → Prop
  | .registered | .senderSpawned | .running | .cleaning => True
  | .absent | .listening | .accepted => False

inductive Central where
  | idle
  | checking (m : Parcel)
  | trying (m : Parcel)
  | sending (m : Parcel) (k : Nat)

def Central.parcels : Central → List Parcel
  | .idle => []
  | .checking m | .trying m | .sending m _ => [m]

structure Relay where
  outChannels : Nat → Option Nat
  handler : Nat → Handler
  accepted : Nat → Nat
  conn : ConnId → Conn
  queue : List Parcel
  central : Central
  sends : List (Parcel × Nat)
  read : List Parcel

namespace Relay

def initial (mapping : Nat → Option Nat) : Relay where
  outChannels p := if (mapping p).isSome then some 0 else none
  handler p := if (mapping p).isSome then .listening else .absent
  accepted _ := 0
  conn _ := Conn.opened [] .eof
  queue := []
  central := .idle
  sends := []
  read := []

/-- What the central actor has sent for port `q`. -/
def sentFor (s : Relay) (q : Nat) : List Parcel :=
  (s.sends.filter fun x => x.1.toPort = q).map Prod.fst

/-- What has been sent on a channel. -/
def log (s : Relay) (c : ConnId) : List Parcel :=
  (s.sends.filter fun x => (x.1.toPort, x.2) = c).map Prod.fst

/-- What the writing task of a connection has still to take. -/
def ahead (s : Relay) (c : ConnId) : List Parcel :=
  Broadcast.ahead (s.log c) (s.conn c).start (s.conn c).written

/-- The handler of `p` goes on to `h`. -/
def goes (s : Relay) (p : Nat) (h : Handler) : Relay :=
  { s with handler := Function.update s.handler p h }

def setConn (s : Relay) (c : ConnId) (conn : Conn) : Relay :=
  { s with conn := Function.update s.conn c conn }

/-- The connection the handler of `p` has accepted last. -/
def current (s : Relay) (p : Nat) : ConnId := (p, s.accepted p)

inductive Event where
  | accept (p : Nat) (stream : Bytes) (ending : Ending)
  | register (p : Nat)
  | spawnSender (p : Nat)
  | spawnReceiver (p : Nat)
  | select (p : Nat)
  | cleanup (p : Nat)
  | subscribe (c : ConnId)
  | write (c : ConnId) (m : Parcel)
  | writeFails (c : ConnId) (torn : Bytes)
  | lag (c : ConnId)
  | read (c : ConnId) (m : Parcel)
  | push (c : ConnId) (m : Parcel)
  | close (c : ConnId)
  | recv (m : Parcel)
  | skip (m : Parcel)
  | check (m : Parcel)
  | look (m : Parcel) (k : Nat)
  | giveUp (m : Parcel)
  | send (m : Parcel) (k : Nat)

/-- `capacity` is the number of messages a broadcast channel keeps, `centralCapacity` the length of the
queue of the central actor. -/
inductive Step (mapping : Nat → Option Nat) (capacity centralCapacity : Nat) :
    Relay → Event → Relay → Prop where
  | accept {s : Relay} {p : Nat} {stream : Bytes} {ending : Ending} : s.handler p = .listening →
      Step mapping capacity centralCapacity s (.accept p stream ending)
        { s with
          handler := Function.update s.handler p .accepted
          accepted := Function.update s.accepted p (s.accepted p + 1)
          conn := Function.update s.conn (p, s.accepted p + 1) (Conn.opened stream ending) }
  | register {s : Relay} {p : Nat} : s.handler p = .accepted →
      Step mapping capacity centralCapacity s (.register p)
        { s with
          handler := Function.update s.handler p .registered
          outChannels := Function.update s.outChannels p (some (s.accepted p)) }
  | spawnSender {s : Relay} {p : Nat} : s.handler p = .registered →
      Step mapping capacity centralCapacity s (.spawnSender p)
        ((s.goes p .senderSpawned).setConn (s.current p)
          { s.conn (s.current p) with sender := .spawned })
  | spawnReceiver {s : Relay} {p : Nat} : s.handler p = .senderSpawned →
      Step mapping capacity centralCapacity s (.spawnReceiver p)
        ((s.goes p .running).setConn (s.current p)
          { s.conn (s.current p) with receiver := .reading })
  -- `select!` goes on with the first task to end and leaves the other one running
  | select {s : Relay} {p : Nat} : s.handler p = .running →
      (s.conn (s.current p)).receiver = .ended ∨ (s.conn (s.current p)).sender = .ended →
      Step mapping capacity centralCapacity s (.select p) (s.goes p .cleaning)
  | cleanup {s : Relay} {p : Nat} : s.handler p = .cleaning →
      Step mapping capacity centralCapacity s (.cleanup p)
        { s with
          handler := Function.update s.handler p .listening
          outChannels := Function.update s.outChannels p none }
  | subscribe {s : Relay} {c : ConnId} : (s.conn c).sender = .spawned →
      Step mapping capacity centralCapacity s (.subscribe c)
        (s.setConn c { s.conn c with sender := .subscribed, start := (s.log c).length })
  | write {s : Relay} {c : ConnId} {m : Parcel} : (s.conn c).sender = .subscribed →
      (s.log c)[(s.conn c).start + (s.conn c).written.length]? = some m →
      (s.ahead c).length ≤ capacity →
      Step mapping capacity centralCapacity s (.write c m)
        (s.setConn c { s.conn c with written := (s.conn c).written ++ [m] })
  | writeFails {s : Relay} {c : ConnId} {m : Parcel} {torn : Bytes} :
      (s.conn c).sender = .subscribed →
      (s.log c)[(s.conn c).start + (s.conn c).written.length]? = some m →
      (s.ahead c).length ≤ capacity → torn <+: m.data → torn ≠ m.data →
      Step mapping capacity centralCapacity s (.writeFails c torn)
        (s.setConn c { s.conn c with sender := .ended, torn := torn })
  | lag {s : Relay} {c : ConnId} : (s.conn c).sender = .subscribed →
      capacity < (s.ahead c).length →
      Step mapping capacity centralCapacity s (.lag c)
        (s.setConn c { s.conn c with sender := .ended })
  | read {s : Relay} {c : ConnId} {q : Nat} : (s.conn c).receiver = .reading →
      (s.conn c).unread ≠ [] → newline ∈ (s.conn c).unread ∨ (s.conn c).ending = .eof →
      mapping c.1 = some q →
      Step mapping capacity centralCapacity s
        (.read c ⟨s.read.length, c.1, q, (readUntil newline (s.conn c).unread).1,
          newline ∉ (s.conn c).unread⟩)
        { s with
          conn := Function.update s.conn c { s.conn c with
            unread := (readUntil newline (s.conn c).unread).2
            receiver := .holding ⟨s.read.length, c.1, q,
              (readUntil newline (s.conn c).unread).1, newline ∉ (s.conn c).unread⟩ }
          read := s.read ++ [⟨s.read.length, c.1, q,
            (readUntil newline (s.conn c).unread).1, newline ∉ (s.conn c).unread⟩] }
  | push {s : Relay} {c : ConnId} {m : Parcel} : (s.conn c).receiver = .holding m →
      s.queue.length < centralCapacity →
      Step mapping capacity centralCapacity s (.push c m)
        { s with
          conn := Function.update s.conn c { s.conn c with receiver := .reading }
          queue := s.queue ++ [m] }
  | close {s : Relay} {c : ConnId} : (s.conn c).receiver = .reading →
      newline ∉ (s.conn c).unread → (s.conn c).unread = [] ∨ (s.conn c).ending = .error →
      Step mapping capacity centralCapacity s (.close c)
        (s.setConn c { s.conn c with receiver := .ended })
  | recv {s : Relay} {m : Parcel} {rest : List Parcel} : s.central = .idle → s.queue = m :: rest →
      Step mapping capacity centralCapacity s (.recv m)
        { s with central := .checking m, queue := rest }
  | skip {s : Relay} {m : Parcel} : s.central = .checking m → s.outChannels m.toPort = none →
      Step mapping capacity centralCapacity s (.skip m) { s with central := .idle }
  | check {s : Relay} {m : Parcel} : s.central = .checking m →
      (s.outChannels m.toPort).isSome → Step mapping capacity centralCapacity s (.check m)
        { s with central := .trying m }
  | look {s : Relay} {m : Parcel} {k : Nat} : s.central = .trying m →
      s.outChannels m.toPort = some k → Step mapping capacity centralCapacity s (.look m k)
        { s with central := .sending m k }
  | giveUp {s : Relay} {m : Parcel} : s.central = .trying m → s.outChannels m.toPort = none →
      Step mapping capacity centralCapacity s (.giveUp m) { s with central := .idle }
  | send {s : Relay} {m : Parcel} {k : Nat} : s.central = .sending m k →
      Step mapping capacity centralCapacity s (.send m k)
        { s with central := .idle, sends := s.sends ++ [(m, k)] }

def machine (mapping : Nat → Option Nat) (capacity centralCapacity : Nat) :
    Machine Relay Event where
  init s := s = initial mapping
  step := Step mapping capacity centralCapacity

/-! ## Channels -/

/-- The channels used for a port are used one after the other. -/
structure Ordered (s : Relay) : Prop where
  sorted : s.sends.Pairwise fun x y => x.1.toPort = y.1.toPort → x.2 ≤ y.2
  sent_le : ∀ x ∈ s.sends, x.2 ≤ s.accepted x.1.toPort
  channel_le : ∀ p k, s.outChannels p = some k → k ≤ s.accepted p
  sending_le : ∀ m k, s.central = .sending m k → k ≤ s.accepted m.toPort
  sent_channel : ∀ x ∈ s.sends, ∀ k, s.outChannels x.1.toPort = some k → x.2 ≤ k
  sending_channel : ∀ m k, s.central = .sending m k →
    ∀ k', s.outChannels m.toPort = some k' → k ≤ k'
  sent_sending : ∀ m k, s.central = .sending m k →
    ∀ x ∈ s.sends, x.1.toPort = m.toPort → x.2 ≤ k
  own : ∀ p, Handler.Registered (s.handler p) → s.outChannels p = some (s.accepted p)

variable {mapping : Nat → Option Nat} {capacity centralCapacity : Nat} {s s' : Relay} {e : Event}

theorem Ordered.initial : Ordered (initial mapping) where
  sorted := .nil
  sent_le := by simp [Relay.initial]
  channel_le p k h := by
    obtain ⟨-, hk⟩ := Option.ite_none_right_eq_some.mp h
    cases hk
    exact le_rfl
  sending_le := by simp [Relay.initial]
  sent_channel := by simp [Relay.initial]
  sending_channel := by simp [Relay.initial]
  sent_sending := by simp [Relay.initial]
  own p h := by
    by_cases hp : (mapping p).isSome <;> simp [Relay.initial, hp, Handler.Registered] at h

/-- The handlers of the other ports keep their channels. -/
theorem Ordered.own_of_ne (h : Ordered s) {p q : Nat} {handler : Handler} (hne : q ≠ p)
    (hq : Handler.Registered (Function.update s.handler p handler q)) :
    s.outChannels q = some (s.accepted q) :=
  h.own q (by simpa [hne] using hq)

theorem Ordered.goes (h : Ordered s) {p : Nat} {handler : Handler}
    (hp : Handler.Registered (s.handler p)) : Ordered (s.goes p handler) where
  sorted := h.sorted
  sent_le := h.sent_le
  channel_le := h.channel_le
  sending_le := h.sending_le
  sent_channel := h.sent_channel
  sending_channel := h.sending_channel
  sent_sending := h.sent_sending
  own q hq := by
    by_cases heq : q = p
    · rw [heq]
      exact h.own p hp
    · exact h.own_of_ne heq hq

theorem Ordered.setConn (h : Ordered s) (c : ConnId) (conn : Conn) : Ordered (s.setConn c conn) :=
  ⟨h.sorted, h.sent_le, h.channel_le, h.sending_le, h.sent_channel, h.sending_channel,
    h.sent_sending, h.own⟩

/-- The central actor goes on without a channel in hand. -/
theorem Ordered.central (h : Ordered s) {central : Central} {queue : List Parcel}
    (hc : ∀ m k, central ≠ .sending m k) :
    Ordered { s with central := central, queue := queue } :=
  ⟨h.sorted, h.sent_le, h.channel_le, fun m k hm => absurd hm (hc m k), h.sent_channel,
    fun m k hm => absurd hm (hc m k), fun m k hm => absurd hm (hc m k), h.own⟩

theorem Ordered.accept (h : Ordered s) {p : Nat} (conn : ConnId → Conn) : Ordered { s with
    handler := Function.update s.handler p .accepted
    accepted := Function.update s.accepted p (s.accepted p + 1)
    conn := conn } := by
  have hle : ∀ q, s.accepted q ≤ Function.update s.accepted p (s.accepted p + 1) q := by
    intro q
    by_cases hq : q = p
    · subst hq
      simp
    · simp [hq]
  refine ⟨h.sorted, fun x hx => (h.sent_le x hx).trans (hle _),
    fun q k hk => (h.channel_le q k hk).trans (hle _),
    fun m k hm => (h.sending_le m k hm).trans (hle _), h.sent_channel, h.sending_channel,
    h.sent_sending, ?_⟩
  intro q hq
  by_cases heq : q = p
  · subst heq
    simp [Handler.Registered] at hq
  · simpa [heq] using h.own_of_ne heq hq

theorem Ordered.register (h : Ordered s) {p : Nat} : Ordered { s with
    handler := Function.update s.handler p .registered
    outChannels := Function.update s.outChannels p (some (s.accepted p)) } := by
  refine ⟨h.sorted, h.sent_le, ?_, h.sending_le, ?_, ?_, h.sent_sending, ?_⟩
  · intro q k hk
    by_cases hq : q = p
    · subst hq
      simp at hk
      exact hk.ge
    · exact h.channel_le q k (by simpa [hq] using hk)
  · intro x hx k hk
    by_cases hq : x.1.toPort = p
    · subst hq
      simp at hk
      exact hk ▸ h.sent_le x hx
    · exact h.sent_channel x hx k (by simpa [hq] using hk)
  · intro m k hm k' hk
    by_cases hq : m.toPort = p
    · subst hq
      simp at hk
      exact hk ▸ h.sending_le m k hm
    · exact h.sending_channel m k hm k' (by simpa [hq] using hk)
  · intro q hq
    by_cases heq : q = p
    · subst heq
      simp
    · simpa [heq] using h.own_of_ne heq hq

theorem Ordered.cleanup (h : Ordered s) {p : Nat} : Ordered { s with
    handler := Function.update s.handler p .listening
    outChannels := Function.update s.outChannels p none } := by
  have hsome : ∀ q k, Function.update s.outChannels p none q = some k → s.outChannels q = some k := by
    intro q k hk
    by_cases hq : q = p
    · subst hq
      simp at hk
    · simpa [hq] using hk
  refine ⟨h.sorted, h.sent_le, fun q k hk => h.channel_le q k (hsome q k hk), h.sending_le,
    fun x hx k hk => h.sent_channel x hx k (hsome _ k hk),
    fun m k hm k' hk => h.sending_channel m k hm k' (hsome _ k' hk), h.sent_sending, ?_⟩
  intro q hq
  by_cases heq : q = p
  · subst heq
    simp [Handler.Registered] at hq
  · simpa [heq] using h.own_of_ne heq hq

theorem Ordered.look (h : Ordered s) {m : Parcel} {k : Nat} (hk : s.outChannels m.toPort = some k) :
    Ordered { s with central := .sending m k } := by
  refine ⟨h.sorted, h.sent_le, h.channel_le, ?_, h.sent_channel, ?_, ?_, h.own⟩
  · rintro m' k' hm
    cases hm
    exact h.channel_le _ _ hk
  · rintro m' k' hm k'' hk''
    cases hm
    exact (Option.some.inj (hk.symm.trans hk'')).le
  · rintro m' k' hm x hx hport
    cases hm
    exact h.sent_channel x hx k (by rw [hport]; exact hk)

theorem Ordered.send (h : Ordered s) {m : Parcel} {k : Nat} (hm : s.central = .sending m k) :
    Ordered { s with central := .idle, sends := s.sends ++ [(m, k)] } := by
  refine ⟨?_, ?_, h.channel_le, by simp, ?_, by simp, by simp, h.own⟩
  · refine List.pairwise_append.mpr ⟨h.sorted, List.pairwise_singleton _ _, ?_⟩
    intro x hx y hy hport
    obtain rfl := List.mem_singleton.mp hy
    exact h.sent_sending m k hm x hx hport
  · intro x hx
    rcases List.mem_append.mp hx with hx | hx
    · exact h.sent_le x hx
    · obtain rfl := List.mem_singleton.mp hx
      exact h.sending_le m k hm
  · intro x hx k' hk'
    rcases List.mem_append.mp hx with hx | hx
    · exact h.sent_channel x hx k' hk'
    · obtain rfl := List.mem_singleton.mp hx
      exact h.sending_channel m k hm k' hk'

theorem Ordered.step (h : Ordered s) (hs : Step mapping capacity centralCapacity s e s') :
    Ordered s' := by
  cases hs with
  | accept _ => exact h.accept _
  | register _ => exact h.register
  | spawnSender hp | spawnReceiver hp => exact (h.goes (by rw [hp]; trivial)).setConn _ _
  | select hp _ => exact h.goes (by rw [hp]; trivial)
  | cleanup _ => exact h.cleanup
  | subscribe _ | write _ _ _ | writeFails _ _ _ _ _ | lag _ _ | close _ _ _ =>
    exact h.setConn _ _
  | read _ _ _ _ | push _ _ =>
    exact ⟨h.sorted, h.sent_le, h.channel_le, h.sending_le, h.sent_channel, h.sending_channel,
      h.sent_sending, h.own⟩
  | recv _ _ | skip _ _ | check _ _ | giveUp _ _ => exact h.central (by simp)
  | look _ hk => exact h.look hk
  | send hm => exact h.send hm

/-- What is sent on one channel is a block of what is sent for its port. -/
theorem Ordered.log_block (h : Ordered s) (c : ConnId) : s.log c <:+: s.sentFor c.1 := by
  have hsorted : (s.sends.filter fun x => x.1.toPort = c.1).Pairwise fun x y => x.2 ≤ y.2 := by
    refine (h.sorted.filter _).imp_of_mem ?_
    intro x y hx hy hle
    obtain ⟨-, hx⟩ := List.mem_filter.mp hx
    obtain ⟨-, hy⟩ := List.mem_filter.mp hy
    exact hle ((of_decide_eq_true hx).trans (of_decide_eq_true hy).symm)
  have hblock := (Broadcast.filter_infix_of_sorted hsorted c.2).map Prod.fst
  rw [List.filter_filter] at hblock
  have hlog : s.log c = (s.sends.filter fun x =>
      decide (x.2 = c.2) && decide (x.1.toPort = c.1)).map Prod.fst := by
    rw [log]
    congr 2
    funext x
    rw [← Bool.decide_and, decide_eq_decide, Prod.ext_iff]
    exact and_comm
  rw [hlog]
  exact hblock

/-! ## Parcels -/

/-- What has been pushed to the central actor and not dropped, oldest first. -/
def flow (s : Relay) : List Parcel := s.sends.map Prod.fst ++ s.central.parcels ++ s.queue

def Held (s : Relay) (c : ConnId) (m : Parcel) : Prop := (s.conn c).receiver = .holding m

/-- Every message read is in one place at most. -/
structure Numbered (s : Relay) : Prop where
  nodup : s.flow.Pairwise fun m m' => m.id ≠ m'.id
  flow_read : ∀ m ∈ s.flow, m ∈ s.read
  held_read : ∀ c m, s.Held c m → m ∈ s.read
  held_flow : ∀ c m, s.Held c m → ∀ m' ∈ s.flow, m'.id ≠ m.id
  held_held : ∀ c c' m m', s.Held c m → s.Held c' m' → m.id = m'.id → c = c'
  id_lt : ∀ m ∈ s.read, m.id < s.read.length

theorem Numbered.initial : Numbered (initial mapping) := by
  constructor <;> simp [Relay.initial, flow, Central.parcels, Held, Conn.opened]

theorem held_update {c : ConnId} {conn : Conn}
    (hc : ∀ m, conn.receiver = .holding m → s.Held c m) {c' : ConnId} {m : Parcel}
    (h : (Function.update s.conn c conn c').receiver = .holding m) : s.Held c' m := by
  by_cases heq : c' = c
  · subst heq
    exact hc m (by simpa using h)
  · simpa [heq, Held] using h

/-- A step that reads nothing and pushes nothing. -/
theorem Numbered.sub (h : Numbered s) (hflow : s'.flow.Sublist s.flow) (hread : s'.read = s.read)
    (hheld : ∀ c m, s'.Held c m → s.Held c m) : Numbered s' where
  nodup := h.nodup.sublist hflow
  flow_read m hm := hread ▸ h.flow_read m (hflow.subset hm)
  held_read c m hm := hread ▸ h.held_read c m (hheld c m hm)
  held_flow c m hm m' hm' := h.held_flow c m (hheld c m hm) m' (hflow.subset hm')
  held_held c c' m m' hm hm' := h.held_held c c' m m' (hheld c m hm) (hheld c' m' hm')
  id_lt := hread ▸ h.id_lt

theorem Numbered.push (h : Numbered s) {c : ConnId} {m : Parcel} (hm : s.Held c m) :
    Numbered { s with
      conn := Function.update s.conn c { s.conn c with receiver := .reading }
      queue := s.queue ++ [m] } := by
  have hheld : ∀ c' m', (Function.update s.conn c { s.conn c with receiver := .reading } c').receiver =
      .holding m' → c' ≠ c ∧ s.Held c' m' := by
    intro c' m' h'
    refine ⟨?_, held_update (by simp) h'⟩
    rintro rfl
    simp at h'
  have hflow : ∀ m', m' ∈ s.flow ++ [m] → m' ∈ s.flow ∨ m' = m := by simp
  constructor
  · rw [flow, ← List.append_assoc]
    refine List.pairwise_append.mpr ⟨h.nodup, List.pairwise_singleton _ _, ?_⟩
    intro m' hm' m'' hm''
    rw [List.mem_singleton.mp hm'']
    exact h.held_flow c m hm m' hm'
  · intro m' hm'
    rw [flow, ← List.append_assoc] at hm'
    rcases hflow m' hm' with hm' | rfl
    · exact h.flow_read m' hm'
    · exact h.held_read c m' hm
  · intro c' m' h'
    exact h.held_read c' m' (hheld c' m' h').2
  · intro c' m' h' m'' hm''
    obtain ⟨hne, hold⟩ := hheld c' m' h'
    rw [flow, ← List.append_assoc] at hm''
    rcases hflow m'' hm'' with hm'' | rfl
    · exact h.held_flow c' m' hold m'' hm''
    · exact fun heq => hne (h.held_held c' c m' m'' hold hm heq.symm)
  · intro c' c'' m' m'' h' h''
    exact h.held_held c' c'' m' m'' (hheld c' m' h').2 (hheld c'' m'' h'').2
  · exact h.id_lt

theorem Numbered.read (h : Numbered s) {c : ConnId} {m : Parcel} {unread : Bytes}
    (hid : m.id = s.read.length) : Numbered { s with
      conn := Function.update s.conn c { s.conn c with unread := unread, receiver := .holding m }
      read := s.read ++ [m] } := by
  have hheld : ∀ c' m', (Function.update s.conn c { s.conn c with
      unread := unread, receiver := .holding m } c').receiver = .holding m' →
      (c' = c ∧ m' = m) ∨ s.Held c' m' := by
    intro c' m' h'
    by_cases heq : c' = c
    · subst heq
      simp at h'
      exact Or.inl ⟨rfl, h'.symm⟩
    · exact Or.inr (by simpa [heq, Held] using h')
  have hnew : ∀ m' ∈ s.read, m'.id ≠ m.id := fun m' hm' => by
    have hlt := h.id_lt m' hm'
    omega
  refine ⟨h.nodup, fun m' hm' => List.mem_append_left _ (h.flow_read m' hm'), ?_, ?_, ?_, ?_⟩
  · intro c' m' h'
    rcases hheld c' m' h' with ⟨-, rfl⟩ | hold
    · exact List.mem_append_right _ (List.mem_singleton_self _)
    · exact List.mem_append_left _ (h.held_read c' m' hold)
  · intro c' m' h' m'' hm''
    rcases hheld c' m' h' with ⟨-, rfl⟩ | hold
    · exact hnew m'' (h.flow_read m'' hm'')
    · exact h.held_flow c' m' hold m'' hm''
  · intro c' c'' m' m'' h' h'' heq
    rcases hheld c' m' h' with ⟨rfl, rfl⟩ | hold <;>
      rcases hheld c'' m'' h'' with ⟨rfl, rfl⟩ | hold'
    · rfl
    · exact absurd heq.symm (hnew m'' (h.held_read c'' m'' hold'))
    · exact absurd heq (hnew m' (h.held_read c' m' hold))
    · exact h.held_held c' c'' m' m'' hold hold' heq
  · intro m' hm'
    rw [List.length_append, List.length_singleton]
    rcases List.mem_append.mp hm' with hm' | hm'
    · exact Nat.lt_succ_of_lt (h.id_lt m' hm')
    · rw [List.mem_singleton.mp hm', hid]
      exact Nat.lt_succ_self _

theorem flow_central (central : Central) (queue : List Parcel)
    (h : (central.parcels ++ queue).Sublist (s.central.parcels ++ s.queue)) :
    (flow { s with central := central, queue := queue }).Sublist s.flow := by
  rw [flow, flow, List.append_assoc, List.append_assoc]
  exact h.append_left _

theorem Numbered.step (h : Numbered s) (hs : Step mapping capacity centralCapacity s e s') :
    Numbered s' := by
  cases hs with
  | accept _ => exact h.sub (List.Sublist.refl _) rfl fun _ _ hm => held_update (by simp [Conn.opened]) hm
  | register _ | select _ _ | cleanup _ =>
    exact h.sub (List.Sublist.refl _) rfl fun _ _ => id
  | spawnReceiver _ | close _ _ _ =>
    exact h.sub (List.Sublist.refl _) rfl fun _ _ hm => held_update (by simp) hm
  | spawnSender _ | subscribe _ | write _ _ _ | writeFails _ _ _ _ _ | lag _ _ =>
    exact h.sub (List.Sublist.refl _) rfl fun _ _ hm => held_update (by simp [Held]) hm
  | read _ _ _ _ => exact h.read rfl
  | push hheld _ => exact h.push hheld
  | recv hidle hqueue =>
    refine h.sub (flow_central _ _ ?_) rfl fun _ _ => id
    rw [hidle, hqueue]
    exact List.Sublist.refl _
  | skip hc _ | giveUp hc _ =>
    refine h.sub (flow_central _ s.queue ?_) rfl fun _ _ => id
    rw [hc]
    exact List.sublist_cons_self _ _
  | check hc _ | look hc _ =>
    refine h.sub (flow_central _ s.queue ?_) rfl fun _ _ => id
    rw [hc]
    exact List.Sublist.refl _
  | send hc =>
    refine h.sub ?_ rfl fun _ _ => id
    simp [flow, hc, Central.parcels]

/-! ## Writing tasks -/

/-- What the writing task of a connection has written of what has been sent on its channel. -/
inductive Follows (log : List Parcel) (conn : Conn) : Prop where
  | fresh : conn.sender = .waiting ∨ conn.sender = .spawned → conn.written = [] → conn.torn = [] →
      Follows log conn
  | subscribed : conn.sender = .subscribed → Broadcast.Taken log conn.start conn.written →
      conn.torn = [] → Follows log conn
  | ended : conn.sender = .ended → Broadcast.Taken log conn.start conn.written → Follows log conn

theorem Follows.send {log : List Parcel} {conn : Conn} (h : Follows log conn) (more : List Parcel) :
    Follows (log ++ more) conn := by
  cases h with
  | fresh hsender hwritten htorn => exact .fresh hsender hwritten htorn
  | subscribed hsender htaken htorn => exact .subscribed hsender (htaken.send more) htorn
  | ended hsender htaken => exact .ended hsender (htaken.send more)

theorem Follows.of_subscribed {log : List Parcel} {conn : Conn} (h : Follows log conn)
    (hs : conn.sender = .subscribed) :
    Broadcast.Taken log conn.start conn.written ∧ conn.torn = [] := by
  cases h with
  | fresh hsender _ _ => simp [hs] at hsender
  | subscribed _ htaken htorn => exact ⟨htaken, htorn⟩
  | ended hsender _ => simp [hs] at hsender

theorem Follows.of_spawned {log : List Parcel} {conn : Conn} (h : Follows log conn)
    (hs : conn.sender = .waiting ∨ conn.sender = .spawned) :
    conn.written = [] ∧ conn.torn = [] := by
  cases h with
  | fresh _ hwritten htorn => exact ⟨hwritten, htorn⟩
  | subscribed hsender _ _ | ended hsender _ => simp [hsender] at hs

theorem Follows.written_block {log : List Parcel} {conn : Conn} (h : Follows log conn) :
    conn.written <:+: log := by
  cases h with
  | fresh _ hwritten _ =>
    rw [hwritten]
    exact List.nil_infix
  | subscribed _ htaken _ | ended _ htaken => exact htaken.block

/-- A change of a connection that does not concern its writing task. -/
theorem Follows.congr {log : List Parcel} {conn conn' : Conn} (h : Follows log conn)
    (hsender : conn'.sender = conn.sender) (hstart : conn'.start = conn.start)
    (hwritten : conn'.written = conn.written) (htorn : conn'.torn = conn.torn) :
    Follows log conn' := by
  cases h with
  | fresh hs hw ht =>
    exact .fresh (by rwa [hsender]) (hwritten.trans hw) (htorn.trans ht)
  | subscribed hs htaken ht =>
    exact .subscribed (hsender.trans hs) (by rwa [hstart, hwritten]) (htorn.trans ht)
  | ended hs htaken => exact .ended (hsender.trans hs) (by rwa [hstart, hwritten])

/-- The handler has not spawned the writing task of its connection yet. -/
def Unspawned (s : Relay) (p : Nat) : Prop := s.handler p = .accepted ∨ s.handler p = .registered

structure Tracked (s : Relay) : Prop where
  waiting : ∀ p, s.Unspawned p → (s.conn (s.current p)).sender = .waiting
  follows : ∀ c, Follows (s.log c) (s.conn c)

theorem Tracked.initial : Tracked (initial mapping) where
  waiting _ _ := rfl
  follows _ := .fresh (Or.inl rfl) rfl rfl

theorem Tracked.setConn (h : Tracked s) {c : ConnId} {conn : Conn} {queue read : List Parcel}
    (hfollows : Follows (s.log c) conn)
    (hwaiting : ∀ p, s.Unspawned p → s.current p = c → conn.sender = .waiting) :
    Tracked { s with conn := Function.update s.conn c conn, queue := queue, read := read } where
  waiting p hp := by
    show (Function.update s.conn c conn (s.current p)).sender = .waiting
    by_cases heq : s.current p = c
    · rw [heq, Function.update_self]
      exact hwaiting p hp heq
    · rw [Function.update_of_ne heq]
      exact h.waiting p hp
  follows c' := by
    show Follows (s.log c') (Function.update s.conn c conn c')
    by_cases heq : c' = c
    · rw [heq, Function.update_self]
      exact hfollows
    · rw [Function.update_of_ne heq]
      exact h.follows c'

theorem Tracked.goes (h : Tracked s) {p : Nat} {handler : Handler} {outChannels : Nat → Option Nat}
    (hp : (handler = .accepted ∨ handler = .registered) → s.Unspawned p) :
    Tracked { s with
      handler := Function.update s.handler p handler
      outChannels := outChannels } where
  waiting q hq := by
    refine h.waiting q ?_
    by_cases heq : q = p
    · subst heq
      exact hp (by simpa [Unspawned] using hq)
    · simpa [Unspawned, heq] using hq
  follows := h.follows

theorem Tracked.accept (h : Tracked s) {p : Nat} {stream : Bytes} {ending : Ending} :
    Tracked { s with
      handler := Function.update s.handler p .accepted
      accepted := Function.update s.accepted p (s.accepted p + 1)
      conn := Function.update s.conn (p, s.accepted p + 1) (Conn.opened stream ending) } where
  waiting q hq := by
    by_cases heq : q = p
    · subst heq
      simp [current, Conn.opened]
    · have hne : (q, s.accepted q) ≠ (p, s.accepted p + 1) := fun h => heq (Prod.mk.inj h).1
      simpa [current, heq, hne] using h.waiting q (by simpa [Unspawned, heq] using hq)
  follows c := by
    show Follows (s.log c)
      (Function.update s.conn (p, s.accepted p + 1) (Conn.opened stream ending) c)
    by_cases heq : c = (p, s.accepted p + 1)
    · rw [heq, Function.update_self]
      exact .fresh (Or.inl rfl) rfl rfl
    · rw [Function.update_of_ne heq]
      exact h.follows c

theorem log_send (m : Parcel) (k : Nat) (central : Central) (c : ConnId) :
    log { s with central := central, sends := s.sends ++ [(m, k)] } c =
      s.log c ++ if (m.toPort, k) = c then [m] else [] := by
  rw [log, log, List.filter_append, List.map_append]
  by_cases hc : (m.toPort, k) = c <;> simp [hc]

theorem Tracked.step (h : Tracked s) (hs : Step mapping capacity centralCapacity s e s') :
    Tracked s' := by
  -- a task past its spawning is not the one its handler is about to spawn
  have hbusy : ∀ c, (s.conn c).sender ≠ .waiting → ∀ conn : Conn, ∀ p, s.Unspawned p →
      s.current p = c → conn.sender = .waiting := by
    rintro c hc conn p hp rfl
    exact absurd (h.waiting p hp) hc
  have hkept : ∀ c, ∀ p, s.Unspawned p → s.current p = c → (s.conn c).sender = .waiting := by
    rintro c p hp rfl
    exact h.waiting p hp
  cases hs with
  | accept _ => exact h.accept
  | register hp => exact h.goes fun _ => Or.inl hp
  | spawnSender hp =>
    rename_i p
    obtain ⟨hwritten, htorn⟩ :=
      (h.follows (s.current p)).of_spawned (Or.inl (h.waiting p (Or.inr hp)))
    have hgoes : Tracked (s.goes p .senderSpawned) := h.goes (by simp)
    refine hgoes.setConn (.fresh (Or.inr rfl) hwritten htorn) ?_
    intro q hq heq
    have hqp : q = p := (Prod.mk.inj heq).1
    simp [Unspawned, Relay.goes, hqp] at hq
  | spawnReceiver hp =>
    rename_i p
    have hgoes : Tracked (s.goes p .running) := h.goes (by simp)
    refine hgoes.setConn ((h.follows _).congr rfl rfl rfl rfl) ?_
    intro q hq heq
    have hqp : q = p := (Prod.mk.inj heq).1
    simp [Unspawned, Relay.goes, hqp] at hq
  | select _ _ => exact h.goes (by simp)
  | cleanup _ => exact h.goes (by simp)
  | subscribe hsender =>
    obtain ⟨hwritten, htorn⟩ := (h.follows _).of_spawned (Or.inr hsender)
    refine h.setConn (.subscribed rfl ?_ htorn) (hbusy _ (by simp [hsender]) _)
    rw [hwritten]
    exact .subscribe _
  | write hsender hm _ =>
    obtain ⟨htaken, htorn⟩ := (h.follows _).of_subscribed hsender
    exact h.setConn (.subscribed hsender (htaken.recv hm) htorn) (hbusy _ (by simp [hsender]) _)
  | writeFails hsender _ _ _ _ | lag hsender _ =>
    obtain ⟨htaken, -⟩ := (h.follows _).of_subscribed hsender
    exact h.setConn (.ended rfl htaken) (hbusy _ (by simp [hsender]) _)
  | read _ _ _ _ | push _ _ | close _ _ _ =>
    exact h.setConn ((h.follows _).congr rfl rfl rfl rfl) (hkept _)
  | recv _ _ | skip _ _ | check _ _ | look _ _ | giveUp _ _ => exact ⟨h.waiting, h.follows⟩
  | send _ =>
    refine ⟨h.waiting, fun c => ?_⟩
    rw [log_send]
    exact (h.follows c).send _

end Relay
end OmniKV
