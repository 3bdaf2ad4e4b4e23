import Mathlib.Logic.Equiv.List
import OmniKV.Lib.Frames
import OmniKV.Lib.Machine
import OmniKV.Replica

/-!
# Peers

The tasks of `Network::new` that connect to the peers and read from them. Each task connects, stores
the writer of the connection in `sockets`, reads line after line into `incoming_msg_buf`, and at the end
of the connection removes the writer, sleeps and connects again. A line that cannot be decoded panics:
the task is gone.

A connection carries the lines of the messages the other end has written, cut off after any byte.
-/

namespace OmniKV

open Frames (newline readUntil Ending Codec)

instance {Msg : Type} : Nontrivial (Message Msg) := ⟨.reconnect 0, .reconnect 1, by simp⟩

namespace Peers

inductive Phase where
  | connecting
  | reading
  | sleeping
  | dead
  deriving DecidableEq

/-- A task, with its connection: the number it has, the messages sent on it, what arrives of them and
how that ends, the bytes still to be read, and the messages pushed. -/
structure Task (Msg : Type) where
  phase : Phase
  number : Nat
  sent : List (Message Msg)
  stream : Bytes
  ending : Ending
  unread : Bytes
  pushed : List (Message Msg)

/-- `sockets` has for each peer the number of the connection whose writer is stored. -/
structure Network (Msg : Type) where
  sockets : Nat → Option Nat
  incomingMsgBuf : List (Message Msg)
  task : Nat → Task Msg

inductive Event (Msg : Type) where
  | connect (p : Nat) (sent : List (Message Msg)) (stream : Bytes) (ending : Ending)
  | refuse (p : Nat)
  | read (p : Nat)
  | eof (p : Nat)
  | error (p : Nat)
  | wake (p : Nat)
  | getReceived

def Event.peer {Msg : Type} : Event Msg → Option Nat
  | .connect p _ _ _ | .refuse p | .read p | .eof p | .error p | .wake p => some p
  | .getReceived => none

variable {Msg : Type}

def initial : Network Msg where
  sockets _ := none
  incomingMsgBuf := []
  task _ :=
    { phase := .connecting, number := 0, sent := [], stream := [], ending := .eof, unread := []
      pushed := [] }

def Network.setTask (n : Network Msg) (p : Nat) (task : Task Msg) : Network Msg :=
  { n with task := Function.update n.task p task }

/-- The writer of peer `p` is removed, and its task sleeps. -/
def Network.hangUp (n : Network Msg) (p : Nat) : Network Msg :=
  { n with
    sockets := Function.update n.sockets p none
    task := Function.update n.task p { n.task p with phase := .sleeping } }

inductive Step (env : Env) (codec : Codec (Message Msg) UInt8) :
    Network Msg → Event Msg → Network Msg → Prop where
  | connect {n : Network Msg} {p : Nat} {sent : List (Message Msg)} {stream : Bytes}
      {ending : Ending} : p ∈ env.peers → (n.task p).phase = .connecting →
      stream <+: codec.lines newline sent →
      Step env codec n (.connect p sent stream ending)
        { n with
          sockets := Function.update n.sockets p (some ((n.task p).number + 1))
          task := Function.update n.task p
            { phase := .reading, number := (n.task p).number + 1, sent := sent, stream := stream
              ending := ending, unread := stream, pushed := [] } }
  | refuse {n : Network Msg} {p : Nat} : p ∈ env.peers → (n.task p).phase = .connecting →
      Step env codec n (.refuse p) (n.setTask p { n.task p with phase := .sleeping })
  | push {n : Network Msg} {p : Nat} {m : Message Msg} : (n.task p).phase = .reading →
      (n.task p).unread ≠ [] → newline ∈ (n.task p).unread ∨ (n.task p).ending = .eof →
      codec.decode (readUntil newline (n.task p).unread).1 = some m →
      Step env codec n (.read p)
        { n with
          incomingMsgBuf := n.incomingMsgBuf ++ [m]
          task := Function.update n.task p { n.task p with
            unread := (readUntil newline (n.task p).unread).2
            pushed := (n.task p).pushed ++ [m] } }
  -- `expect("could not deserialize msg")`
  | panic {n : Network Msg} {p : Nat} : (n.task p).phase = .reading →
      (n.task p).unread ≠ [] → newline ∈ (n.task p).unread ∨ (n.task p).ending = .eof →
      codec.decode (readUntil newline (n.task p).unread).1 = none →
      Step env codec n (.read p) (n.setTask p { n.task p with phase := .dead })
  | eof {n : Network Msg} {p : Nat} : (n.task p).phase = .reading → (n.task p).unread = [] →
      (n.task p).ending = .eof → Step env codec n (.eof p) (n.hangUp p)
  | error {n : Network Msg} {p : Nat} : (n.task p).phase = .reading →
      newline ∉ (n.task p).unread → (n.task p).ending = .error →
      Step env codec n (.error p) (n.hangUp p)
  | wake {n : Network Msg} {p : Nat} : (n.task p).phase = .sleeping →
      Step env codec n (.wake p) (n.setTask p { n.task p with phase := .connecting })
  | getReceived {n : Network Msg} : Step env codec n .getReceived { n with incomingMsgBuf := [] }

def machine (env : Env) (codec : Codec (Message Msg) UInt8) :
    Machine (Network Msg) (Event Msg) where
  init n := n = initial
  step := Step env codec

/-- The task of a peer, with the entry of the peer in `sockets`, is alive, and up to now it has pushed
the messages that have arrived in full; between two connections all of those, and then the peer has no
writer. -/
def Recovering (codec : Codec (Message Msg) UInt8) (socket : Option Nat) (task : Task Msg) : Prop :=
  match task.phase with
  | .connecting | .sleeping =>
    socket = none ∧ task.pushed = codec.arrived task.sent task.stream
  | .reading =>
    socket = some task.number ∧ ∃ coming, task.unread <+: codec.lines newline coming ∧
      task.pushed ++ codec.arrived coming task.unread = codec.arrived task.sent task.stream
  | .dead => False

def AllRecovering (codec : Codec (Message Msg) UInt8) (n : Network Msg) : Prop :=
  ∀ p, Recovering codec (n.sockets p) (n.task p)

/-- What is left of a connection behind its last line is a whole message or nothing if the connection
ends with an end of file, and not a whole message if it ends with an error. -/
def EndsClean (codec : Codec (Message Msg) UInt8)
    (t : Machine.Transition (Network Msg) (Event Msg)) : Prop :=
  ∀ p, (t.event = .read p → newline ∉ (t.before.task p).unread →
      ∃ m, (t.before.task p).unread = codec.encode m) ∧
    (t.event = .error p → ∀ m, (t.before.task p).unread ≠ codec.encode m)

variable {env : Env} {codec : Codec (Message Msg) UInt8} {n n' : Network Msg} {e : Event Msg}
  {tr : List (Machine.Transition (Network Msg) (Event Msg))}

theorem Recovering.reading {socket : Option Nat} {task : Task Msg}
    (h : Recovering codec socket task) (hphase : task.phase = .reading) :
    socket = some task.number ∧ ∃ coming, task.unread <+: codec.lines newline coming ∧
      task.pushed ++ codec.arrived coming task.unread =
        codec.arrived task.sent task.stream := by
  unfold Recovering at h
  rwa [hphase] at h

/-- All tasks recover if the one that moves does. -/
theorem allRecovering_update (h : AllRecovering codec n) {p : Nat} {socket : Option Nat}
    {task : Task Msg} {buf : List (Message Msg)} :
    AllRecovering codec
      ⟨Function.update n.sockets p socket, buf, Function.update n.task p task⟩ ↔
      Recovering codec socket task := by
  constructor
  · intro hall
    simpa using hall p
  · intro hp q
    by_cases hq : q = p
    · subst hq
      simpa using hp
    · simpa [hq] using h q

theorem allRecovering_setTask (h : AllRecovering codec n) {p : Nat} {task : Task Msg}
    {buf : List (Message Msg)} :
    AllRecovering codec ⟨n.sockets, buf, Function.update n.task p task⟩ ↔
      Recovering codec (n.sockets p) task := by
  have hupdate : AllRecovering codec ⟨Function.update n.sockets p (n.sockets p), buf,
      Function.update n.task p task⟩ ↔ Recovering codec (n.sockets p) task :=
    allRecovering_update h
  rwa [Function.update_eq_self] at hupdate

theorem endsClean_of_ne (hread : ∀ p, e ≠ .read p) (herror : ∀ p, e ≠ .error p) :
    EndsClean codec ⟨n, e, n'⟩ :=
  fun p => ⟨fun he => absurd he (hread p), fun he => absurd he (herror p)⟩

theorem endsClean_read {p : Nat} : EndsClean codec ⟨n, .read p, n'⟩ ↔
    (newline ∉ (n.task p).unread → ∃ m, (n.task p).unread = codec.encode m) := by
  constructor
  · intro h
    exact (h p).1 rfl
  · intro h q
    refine ⟨fun he => ?_, by simp⟩
    cases he
    exact h

theorem endsClean_error {p : Nat} : EndsClean codec ⟨n, .error p, n'⟩ ↔
    ∀ m, (n.task p).unread ≠ codec.encode m := by
  constructor
  · intro h
    exact (h p).2 rfl
  · intro h q
    refine ⟨by simp, fun he => ?_⟩
    cases he
    exact h

/-- A read error behind the last line loses what has arrived of the next message, if that is a whole
message without its newline. -/
theorem Recovering.error_iff (laws : codec.Lawful newline) {socket : Option Nat} {task : Task Msg}
    (h : Recovering codec socket task) (hp : task.phase = .reading) (hsep : newline ∉ task.unread) :
    Recovering codec none { task with phase := .sleeping } ↔ ∀ m, task.unread ≠ codec.encode m := by
  obtain ⟨-, coming, hunread, hpushed⟩ := h.reading hp
  rcases laws.arrived_of_notMem hunread hsep with ⟨m, hm, harrived⟩ | ⟨hm, harrived, -⟩
  · -- the last message has arrived, but only a line that ends is pushed
    refine iff_of_false ?_ fun hall => hall m hm
    rintro ⟨-, hlost⟩
    rw [harrived, ← hlost] at hpushed
    exact absurd hpushed (by simp)
  · rw [harrived, List.append_nil] at hpushed
    exact iff_of_true ⟨rfl, hpushed⟩ hm

/-- A line that ends, and the rest of a stream if it is a whole message, is pushed as what it is. -/
theorem Recovering.push_iff (laws : codec.Lawful newline) {socket : Option Nat} {task : Task Msg}
    (h : Recovering codec socket task) (hp : task.phase = .reading) (hne : task.unread ≠ [])
    {m : Message Msg} (hdecode : codec.decode (readUntil newline task.unread).1 = some m) :
    Recovering codec socket
      { task with
        unread := (readUntil newline task.unread).2
        pushed := task.pushed ++ [m] } ↔
      (newline ∉ task.unread → ∃ m, task.unread = codec.encode m) := by
  obtain ⟨hsocket, coming, hunread, hpushed⟩ := h.reading hp
  by_cases hsep : newline ∈ task.unread
  · obtain ⟨m', rest, rfl, hline, hrest, harrived⟩ := laws.readUntil_lines hunread hsep
    rw [hline, laws.decode_line] at hdecode
    cases hdecode
    refine iff_of_true ?_ fun hnot => absurd hsep hnot
    rw [Recovering, hp]
    refine ⟨hsocket, rest, hrest, ?_⟩
    rw [← hpushed, harrived]
    simp
  · rw [Frames.readUntil_of_notMem hsep] at hdecode ⊢
    rcases laws.arrived_of_notMem hunread hsep with ⟨m', hm, harrived⟩ | ⟨-, -, hnone⟩
    · rw [hm, laws.decode_encode] at hdecode
      cases hdecode
      refine iff_of_true ?_ fun _ => ⟨_, hm⟩
      rw [Recovering, hp]
      refine ⟨hsocket, [], List.nil_prefix, ?_⟩
      rw [← hpushed, harrived, laws.arrived_nil, List.append_nil]
    · rw [hnone hne] at hdecode
      cases hdecode

/-- A line that does not decode is the rest of a stream, and no whole message. -/
theorem Recovering.panic_not_whole (laws : codec.Lawful newline) {socket : Option Nat}
    {task : Task Msg} (h : Recovering codec socket task) (hp : task.phase = .reading)
    (hdecode : codec.decode (readUntil newline task.unread).1 = none) :
    ¬(newline ∉ task.unread → ∃ m, task.unread = codec.encode m) := by
  obtain ⟨-, coming, hunread, -⟩ := h.reading hp
  by_cases hsep : newline ∈ task.unread
  · obtain ⟨m', rest, rfl, hline, -, -⟩ := laws.readUntil_lines hunread hsep
    rw [hline, laws.decode_line] at hdecode
    cases hdecode
  · intro hwhole
    obtain ⟨m, hm⟩ := hwhole hsep
    rw [Frames.readUntil_of_notMem hsep, hm, laws.decode_encode] at hdecode
    cases hdecode

theorem Step.recovering_iff (laws : codec.Lawful newline) (h : AllRecovering codec n)
    (hs : Step env codec n e n') : AllRecovering codec n' ↔ EndsClean codec ⟨n, e, n'⟩ := by
  cases hs with
  | connect _ hp hstream =>
    exact iff_of_true ((allRecovering_update h).mpr ⟨rfl, _, hstream, rfl⟩)
      (endsClean_of_ne (by simp) (by simp))
  | refuse _ hp =>
    rename_i p _
    have hold := h p
    rw [Recovering, hp] at hold
    exact iff_of_true ((allRecovering_setTask h).mpr hold) (endsClean_of_ne (by simp) (by simp))
  | wake hp =>
    rename_i p
    have hold := h p
    rw [Recovering, hp] at hold
    exact iff_of_true ((allRecovering_setTask h).mpr hold) (endsClean_of_ne (by simp) (by simp))
  | getReceived => exact iff_of_true h (endsClean_of_ne (by simp) (by simp))
  | eof hp hunread hending =>
    rename_i p
    obtain ⟨-, coming, -, hpushed⟩ := (h p).reading hp
    rw [hunread, laws.arrived_nil, List.append_nil] at hpushed
    exact iff_of_true ((allRecovering_update h).mpr ⟨rfl, hpushed⟩)
      (endsClean_of_ne (by simp) (by simp))
  | error hp hsep hending =>
    rename_i p
    rw [endsClean_error]
    exact (allRecovering_update h).trans ((h p).error_iff laws hp hsep)
  | push hp hne hline hdecode =>
    rename_i p m
    rw [endsClean_read]
    exact (allRecovering_setTask h).trans ((h p).push_iff laws hp hne hdecode)
  | panic hp hne hline hdecode =>
    rename_i p
    rw [endsClean_read]
    exact (allRecovering_setTask h).trans (iff_of_false id ((h p).panic_not_whole laws hp hdecode))

/-- A task that reads comes back to connecting by its own steps, unless a line kills it. -/
theorem comes_back (hrun : (machine env codec).Run tr n) {p : Nat}
    (hp : (n.task p).phase = .reading) :
    ∃ tr' n', (machine env codec).Run (tr ++ tr') n' ∧ (∀ t ∈ tr', t.event.peer = some p) ∧
      ((n'.task p).phase = .connecting ∨ (n'.task p).phase = .dead) := by
  induction hlen : (n.task p).unread.length using Nat.strong_induction_on generalizing tr n with
  | _ len ih =>
    by_cases hdata : (n.task p).unread ≠ [] ∧
        (newline ∈ (n.task p).unread ∨ (n.task p).ending = .eof)
    · obtain ⟨hne, hline⟩ := hdata
      cases hdecode : codec.decode (readUntil newline (n.task p).unread).1 with
      | none =>
        refine ⟨_, _, hrun.snoc (.panic hp hne hline hdecode), by simp [Event.peer], Or.inr ?_⟩
        simp [Network.setTask]
      | some m =>
        have hrun' := hrun.snoc (.push hp hne hline hdecode)
        have hlt : (readUntil newline (n.task p).unread).2.length < (n.task p).unread.length :=
          Frames.readUntil_snd_length_lt hne
        obtain ⟨tr', n', hrun'', hpeer, hphase⟩ := ih _ (hlen ▸ hlt) hrun'
          (by simpa using hp) (by simp)
        rw [List.append_assoc] at hrun''
        refine ⟨_, n', hrun'', ?_, hphase⟩
        intro t ht
        rcases List.mem_append.mp ht with ht | ht
        · rw [List.mem_singleton.mp ht]
          rfl
        · exact hpeer t ht
    · have hend : ∃ e, Step env codec n e (n.hangUp p) ∧ e.peer = some p := by
        by_cases hunread : (n.task p).unread = []
        · cases hending : (n.task p).ending with
          | eof => exact ⟨_, .eof hp hunread hending, rfl⟩
          | error => exact ⟨_, .error hp (by simp [hunread]) hending, rfl⟩
        · have hrest : newline ∉ (n.task p).unread ∧ (n.task p).ending ≠ .eof :=
            not_or.mp fun hline => hdata ⟨hunread, hline⟩
          cases hending : (n.task p).ending with
          | eof => exact absurd hending hrest.2
          | error => exact ⟨_, .error hp hrest.1 hending, rfl⟩
      obtain ⟨e, hs, hpeer⟩ := hend
      have hrun' := (hrun.snoc hs).snoc (.wake (p := p) (by simp [Network.hangUp]))
      rw [List.append_assoc] at hrun'
      refine ⟨_, _, hrun', ?_, Or.inl (by simp [Network.setTask])⟩
      intro t ht
      rcases List.mem_append.mp ht with ht | ht
      · rw [List.mem_singleton.mp ht]
        exact hpeer
      · rw [List.mem_singleton.mp ht]
        rfl

/-- In every run, all peer tasks recover from the end of each connection exactly when each connection
ends cleanly; and no task stays with a connection for ever. -/
theorem recovers_iff (laws : codec.Lawful newline) (hrun : (machine env codec).Run tr n) :
    ((∀ t ∈ tr, AllRecovering codec t.after) ↔ ∀ t ∈ tr, EndsClean codec t) ∧
    ∀ p, (n.task p).phase = .reading → ∃ tr' n', (machine env codec).Run (tr ++ tr') n' ∧
      (∀ t ∈ tr', t.event.peer = some p) ∧
      ((n'.task p).phase = .connecting ∨ (n'.task p).phase = .dead) := by
  constructor
  · refine hrun.forall_iff (H := fun _ => True) (I := AllRecovering codec) ?_ ?_ ?_
      fun _ _ => trivial
    · intro n h p
      rw [h]
      exact ⟨rfl, rfl⟩
    · intro n e n' hI hs _ hC
      exact (hs.recovering_iff laws hI).mpr hC
    · intro n e n' hI hs _
      exact hs.recovering_iff laws hI
  · intro p hp
    exact comes_back hrun hp

/-! ## A codec -/

instance encodableString : Encodable String :=
  Encodable.ofLeftInverse (fun s => s.toList.map Char.toNat)
    (fun codes => String.ofList (codes.map Char.ofNat)) fun s => by simp [Function.comp_def]

/-- A message as a tag with numbers and strings. -/
def flatten : Message ReplicaMsg → Nat × List Nat × List (String × String)
  | .omniPaxosMsg msg => (0, [msg.receiver, msg.decidedIdx], [])
  | .apiRequest (.put ⟨key, value⟩) => (1, [], [(key, value)])
  | .apiRequest (.delete key) => (2, [], [(key, "")])
  | .apiRequest (.get key) => (3, [], [(key, "")])
  | .apiResponse (.decided idx) => (4, [idx], [])
  | .apiResponse (.get key (some value)) => (5, [], [(key, value)])
  | .apiResponse (.get key none) => (6, [], [(key, "")])
  | .debug text => (7, [], [(text, "")])
  | .stateCatchup kvList => (8, [], kvList)
  | .reconnect pid => (9, [pid], [])

def unflatten : Nat × List Nat × List (String × String) → Option (Message ReplicaMsg)
  | (0, [receiver, decidedIdx], []) => some (.omniPaxosMsg ⟨receiver, decidedIdx⟩)
  | (1, [], [(key, value)]) => some (.apiRequest (.put ⟨key, value⟩))
  | (2, [], [(key, _)]) => some (.apiRequest (.delete key))
  | (3, [], [(key, _)]) => some (.apiRequest (.get key))
  | (4, [idx], []) => some (.apiResponse (.decided idx))
  | (5, [], [(key, value)]) => some (.apiResponse (.get key (some value)))
  | (6, [], [(key, _)]) => some (.apiResponse (.get key none))
  | (7, [], [(text, _)]) => some (.debug text)
  | (8, [], kvList) => some (.stateCatchup kvList)
  | (9, [pid], []) => some (.reconnect pid)
  | _ => none

theorem unflatten_flatten (m : Message ReplicaMsg) : unflatten (flatten m) = some m := by
  cases m with
  | apiRequest cmd => cases cmd <;> rfl
  | apiResponse resp =>
    cases resp with
    | decided idx => rfl
    | get key value => cases value <;> rfl
  | _ => rfl

/-- The number of a message, in unary, with an end mark. -/
def unary (n : Nat) : Bytes := List.replicate n 65 ++ [66]

/-- `{"Debug":"A"}` -/
def debugJson : Bytes := [123, 34, 68, 101, 98, 117, 103, 34, 58, 34, 65, 34, 125]

def decodeLine (line : Bytes) : Option (Message ReplicaMsg) :=
  if line = debugJson then some (.debug "A")
  else if line = unary (line.length - 1) then (Encodable.decode (line.length - 1)).bind unflatten
  else none

/-- One message is encoded as `serde_json` encodes it, the others by their numbers. -/
def sampleCodec : Codec (Message ReplicaMsg) UInt8 where
  encode m := if m = .debug "A" then debugJson else unary (Encodable.encode (flatten m))
  decode bytes := decodeLine (if bytes.getLast? = some newline then bytes.dropLast else bytes)

theorem unary_ne_debugJson (n : Nat) : unary n ≠ debugJson := by
  cases n <;> simp [unary, debugJson, List.replicate_succ]

theorem decodeLine_encode (m : Message ReplicaMsg) :
    decodeLine (sampleCodec.encode m) = some m := by
  by_cases hm : m = .debug "A"
  · simp [decodeLine, sampleCodec, hm]
  · have hlen : ∀ n, (unary n).length - 1 = n := by simp [unary]
    simp [decodeLine, sampleCodec, hm, unary_ne_debugJson, hlen, unflatten_flatten]

theorem newline_notMem_encode (m : Message ReplicaMsg) : newline ∉ sampleCodec.encode m := by
  by_cases hm : m = .debug "A"
  · simp [sampleCodec, hm, debugJson, newline]
  · simp [sampleCodec, hm, unary, newline]

theorem decode_of_notMem {bytes : Bytes} (h : newline ∉ bytes) :
    sampleCodec.decode bytes = decodeLine bytes := by
  have hlast : bytes.getLast? ≠ some newline := fun hlast => h (List.mem_of_getLast? hlast)
  simp only [sampleCodec, if_neg hlast]

/-- What is cut off a line cannot be decoded. -/
theorem decodeLine_prefix {m : Message ReplicaMsg} {line : Bytes}
    (h : line <+: sampleCodec.encode m) (hne : line ≠ sampleCodec.encode m) :
    decodeLine line = none := by
  have hunary : line ≠ unary (line.length - 1) := by
    intro hline
    have hmark : 66 ∈ line := by
      rw [hline]
      simp [unary]
    by_cases hm : m = .debug "A"
    · have hmem := h.subset hmark
      simp [sampleCodec, hm, debugJson] at hmem
    · simp only [sampleCodec, if_neg hm] at h hne
      rcases List.prefix_concat_iff.mp h with heq | hpre
      · exact hne heq
      · simpa using List.eq_of_mem_replicate (hpre.subset hmark)
  have hjson : line ≠ debugJson := by
    rintro rfl
    by_cases hm : m = .debug "A"
    · simp [sampleCodec, hm] at hne
    · simp only [sampleCodec, if_neg hm] at h hne
      have hmem : 123 ∈ unary (Encodable.encode (flatten m)) := h.subset (by decide)
      simp [unary] at hmem
  rw [decodeLine, if_neg hjson, if_neg hunary]

theorem sampleCodec_lawful : sampleCodec.Lawful newline where
  sep_notMem := newline_notMem_encode
  decode_encode m := by
    rw [decode_of_notMem (newline_notMem_encode m), decodeLine_encode]
  decode_line m := by
    have hline : sampleCodec.decode (sampleCodec.encode m ++ [newline]) =
        decodeLine (sampleCodec.encode m) := by
      simp [sampleCodec]
    rw [hline, decodeLine_encode]
  decode_prefix m s hs hne := by
    have hsep : newline ∉ s := fun hmem => newline_notMem_encode m (hs.subset hmem)
    rw [decode_of_notMem hsep, decodeLine_prefix hs hne]

/-- The lines of two messages, the second one cut off. -/
def cutLines (m m' : Message ReplicaMsg) : Bytes :=
  sampleCodec.lines newline [m] ++ (sampleCodec.encode m').dropLast

theorem cutLines_prefix (m m' : Message ReplicaMsg) :
    cutLines m m' <+: sampleCodec.lines newline [m, m'] := by
  have hlines : sampleCodec.lines newline [m, m'] =
      sampleCodec.lines newline [m] ++ (sampleCodec.encode m' ++ [newline]) := by
    simp [Codec.lines]
  rw [hlines]
  exact (List.prefix_append_right_inj _).mpr ((List.dropLast_prefix _).trans (List.prefix_append _ _))

theorem arrived_cutLines (m m' : Message ReplicaMsg) :
    sampleCodec.arrived [m, m'] (cutLines m m') = [m] := by
  have hlt : (sampleCodec.encode m').dropLast.length < (sampleCodec.encode m').length := by
    have hpos := List.length_pos_iff.mpr (sampleCodec_lawful.encode_ne_nil m')
    rw [List.length_dropLast]
    omega
  refine (Codec.arrived_lines_append [m] [m'] _).trans ?_
  rw [Codec.arrived_of_length_lt hlt, List.append_nil]

/-! ## Runs of one peer task -/

abbrev SampleRun := Machine.Run (machine sampleEnv sampleCodec)

theorem sample_lines : sampleCodec.lines newline [.debug "A"] = debugJson ++ [newline] := by
  decide

/-- A message arrives, the connection ends behind it, and the task connects again. -/
theorem recovers_sample : ∃ tr n, SampleRun tr n ∧ n.incomingMsgBuf = [.debug "A"] ∧
    (n.task 2).phase = .reading ∧ (n.task 2).number = 2 ∧
    (∀ t ∈ tr, AllRecovering sampleCodec t.after) ∧
    ∃ tr' n', SampleRun (tr ++ tr') n' ∧
      ((n'.task 2).phase = .connecting ∨ (n'.task 2).phase = .dead) := by
  have hrun : SampleRun _ _ := .nil rfl
  have hrun := hrun.snoc (e := Event.connect 2 [.debug "A"] (debugJson ++ [newline]) .eof)
    (.connect (by decide) rfl ⟨[], sample_lines.symm⟩)
  have hrun := hrun.snoc (.push (p := 2) (m := .debug "A") rfl (by decide) (Or.inr rfl) (by decide))
  have hrun := hrun.snoc (.eof (p := 2) rfl (by decide) rfl)
  have hrun := hrun.snoc (.wake (p := 2) rfl)
  have hrun := hrun.snoc (e := Event.connect 2 [] [] .error) (.connect (by decide) rfl List.nil_prefix)
  obtain ⟨hiff, hcomes⟩ := recovers_iff sampleCodec_lawful hrun
  obtain ⟨tr', n', hrun', -, hphase⟩ := hcomes 2 rfl
  refine ⟨_, _, hrun, rfl, rfl, rfl, hiff.mpr ?_, tr', n', hrun', hphase⟩
  simp only [List.nil_append, List.cons_append, List.mem_cons, List.not_mem_nil, or_false,
    forall_eq_or_imp, forall_eq]
  refine ⟨?_, ?_, ?_, ?_, ?_⟩
  · exact endsClean_of_ne (by simp) (by simp)
  · exact endsClean_read.mpr fun hnot => absurd (by decide) hnot
  · exact endsClean_of_ne (by simp) (by simp)
  · exact endsClean_of_ne (by simp) (by simp)
  · exact endsClean_of_ne (by simp) (by simp)

/-- A connection ends inside a message: the task is dead, and its writer is still stored. -/
theorem cut_line_kills : ∃ tr n, SampleRun tr n ∧ (n.task 2).phase = .dead ∧
    n.sockets 2 = some 1 ∧ ¬∀ t ∈ tr, AllRecovering sampleCodec t.after := by
  have hrun : SampleRun _ _ := .nil rfl
  have hrun := hrun.snoc (e := Event.connect 2 [.debug "A"] [123] .eof)
    (.connect (by decide) rfl ⟨debugJson.tail ++ [newline], sample_lines.symm⟩)
  have hrun := hrun.snoc (.panic (p := 2) rfl (by decide) (Or.inr rfl) (by decide))
  refine ⟨_, _, hrun, rfl, rfl, ?_⟩
  intro hall
  exact hall _ (List.mem_of_getElem? (i := 1) rfl) 2

end Peers
end OmniKV
