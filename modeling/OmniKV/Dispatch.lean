import OmniKV.ClientPorts
import OmniKV.Parser
import OmniKV.Transport

/-!
# Dispatch

How a command gets from the user of the network actor into a node: the task of `run` that reads lines,
parses them and writes requests to the client connections, and the task of `Network::new` that reads
requests from the client API.

The first one makes a new buffered reader for each line, and what the old one has read beyond the line
is gone. It looks up the writers of the client ports one by one, with the lock taken anew for each, so
the tasks of the ports run in between. A write that fails panics, and so does a line that is no text or
has a port that is no number: then no command is sent any more.

* `typed_ahead` — which of the bytes typed the task reads.
* `requests_convey` — what the nodes are asked is what has been typed.
* `lost_after_reset` — where commands go once the first node's connection has been reset.
-/

namespace OmniKV
namespace Dispatch

open Frames (newline readUntil Ending Codec)
open ClientPorts (TaskEvent Ports Panicked)

/-! ## Lines -/

/-- `read_line` of a new reader. A chunk is what one read of standard input returns, an empty one the
end of file. What stands behind the newline in its chunk goes with the reader. -/
def readLine : List Bytes → Bytes × List Bytes
  | [] => ([], [])
  | chunk :: chunks =>
    if chunk = [] then ([], chunks)
    else if newline ∈ chunk then ((readUntil newline chunk).1, chunks)
    else (chunk ++ (readLine chunks).1, (readLine chunks).2)

/-- Each chunk up to its first newline. -/
def heads (chunks : List Bytes) : Bytes := chunks.flatMap fun chunk => (readUntil newline chunk).1

theorem heads_append (chunks more : List Bytes) :
    heads (chunks ++ more) = heads chunks ++ heads more := List.flatMap_append

theorem readLine_heads (chunks : List Bytes) :
    ∃ taken, chunks = taken ++ (readLine chunks).2 ∧ (readLine chunks).1 = heads taken := by
  induction chunks with
  | nil => exact ⟨[], rfl, rfl⟩
  | cons chunk chunks ih =>
    unfold readLine
    split
    · rename_i hempty
      exact ⟨[chunk], rfl, by rw [hempty]; rfl⟩
    · split
      · exact ⟨[chunk], rfl, by simp [heads]⟩
      · rename_i hnewline
        obtain ⟨taken, hchunks, hline⟩ := ih
        refine ⟨chunk :: taken, by rw [List.cons_append, ← hchunks], ?_⟩
        rw [hline, heads, heads, List.flatMap_cons, Frames.readUntil_of_notMem hnewline]

theorem heads_length_le (chunks : List Bytes) : (heads chunks).length ≤ chunks.flatten.length := by
  induction chunks with
  | nil => exact le_rfl
  | cons chunk chunks ih =>
    have hsplit : (readUntil newline chunk).1 ++ (readUntil newline chunk).2 = chunk :=
      Frames.readUntil_append chunk
    have hlength := congrArg List.length hsplit
    simp only [heads, List.flatMap_cons, List.flatten_cons, List.length_append] at ih hlength ⊢
    omega

/-- Nothing is lost exactly if nothing stands behind the first newline of a chunk. -/
theorem heads_eq_flatten_iff {chunks : List Bytes} :
    heads chunks = chunks.flatten ↔ ∀ chunk ∈ chunks, (readUntil newline chunk).2 = [] := by
  induction chunks with
  | nil => simp [heads]
  | cons chunk chunks ih =>
    have hsplit : (readUntil newline chunk).1 ++ (readUntil newline chunk).2 = chunk :=
      Frames.readUntil_append chunk
    rw [List.forall_mem_cons, heads, List.flatMap_cons, List.flatten_cons]
    constructor
    · intro h
      have hrest : (readUntil newline chunk).2 = [] := by
        have hlength := congrArg List.length h
        have hlength' := congrArg List.length hsplit
        have hle := heads_length_le chunks
        simp only [heads, List.length_append] at hlength hlength' hle
        exact List.eq_nil_of_length_eq_zero (by omega)
      refine ⟨hrest, ih.mp ?_⟩
      rw [hrest, List.append_nil] at hsplit
      rw [hsplit] at h
      exact List.append_cancel_left h
    · rintro ⟨hrest, htail⟩
      rw [hrest, List.append_nil] at hsplit
      rw [hsplit]
      exact congrArg (chunk ++ ·) (ih.mpr htail)

/-- The text of a line, if it is UTF-8. -/
def lineText (line : Bytes) : Option String := String.fromUTF8? line.toByteArray

/-- The command and the port that a line is accepted as. -/
def accepts (line : Bytes) : Option (KVCommand × Option Nat) :=
  (lineText line).bind fun text =>
    match Parser.parseCommand text with
    | .ok (.ok accepted) => some accepted
    | _ => none

/-! ## The task -/

/-- In `sending` the task still has to look up the writers of `ports`, until it finds one. -/
inductive Phase where
  | prompting
  | sending (command : KVCommand) (ports : List Nat)
  | dead

/-- A request that `write_all` has been called with. `place` is that of its command among those
accepted. -/
structure Request where
  place : Nat
  command : KVCommand

instance inhabitedRequest : Inhabited Request := ⟨⟨0, .get ""⟩⟩

/-- The user is the one source of commands. -/
def Request.origin (r : Request) : Unit × Nat := ((), r.place)

/-- The ports of the client connections and the task. `input` is what standard input is going to return;
`accepted` and `requests` are records of the lines parsed and of the calls of `write_all`. -/
structure Actor where
  ports : Ports
  input : List Bytes
  phase : Phase
  accepted : List (KVCommand × Option Nat)
  requests : ConnId → List Request

inductive Event where
  | port (e : Nat × TaskEvent)
  | line
  | look
  | fail

def lookups (clientPorts : List Nat) : Option Nat → List Nat
  | some port => [port]
  | none => clientPorts

/-- The request for the command accepted last goes to connection `c`. -/
def Actor.write (s : Actor) (c : ConnId) (command : KVCommand) : ConnId → List Request :=
  Function.update s.requests c (s.requests c ++ [⟨s.accepted.length - 1, command⟩])

inductive Step (clientPorts : List Nat) : Actor → Event → Actor → Prop where
  | port {s : Actor} {e : Nat × TaskEvent} {ports : Ports} :
      ClientPorts.Step clientPorts s.ports e ports → Step clientPorts s (.port e) { s with ports }
  | parsed {s : Actor} {text : String} {command : KVCommand} {port : Option Nat} :
      s.phase = .prompting → lineText (readLine s.input).1 = some text →
      Parser.parseCommand text = .ok (.ok (command, port)) →
      Step clientPorts s .line { s with
        input := (readLine s.input).2
        phase := .sending command (lookups clientPorts port)
        accepted := s.accepted ++ [(command, port)] }
  | refused {s : Actor} {text : String} {err : Parser.ParseCommandError} :
      s.phase = .prompting → lineText (readLine s.input).1 = some text →
      Parser.parseCommand text = .ok (.error err) →
      Step clientPorts s .line { s with input := (readLine s.input).2 }
  -- `x.parse::<u64>().unwrap()`
  | noNumber {s : Actor} {text : String} {p : Parser.Panic} :
      s.phase = .prompting → lineText (readLine s.input).1 = some text →
      Parser.parseCommand text = .error p →
      Step clientPorts s .line { s with input := (readLine s.input).2, phase := .dead }
  -- `expect("Did not enter a string")`
  | noText {s : Actor} : s.phase = .prompting → lineText (readLine s.input).1 = none →
      Step clientPorts s .line { s with input := (readLine s.input).2, phase := .dead }
  | found {s : Actor} {command : KVCommand} {i k : Nat} {ports : List Nat} :
      s.phase = .sending command (i :: ports) → (s.ports i).writer = some k →
      Step clientPorts s .look { s with phase := .prompting, requests := s.write (i, k) command }
  -- `write_all(..).await.unwrap()`
  | fails {s : Actor} {command : KVCommand} {i k : Nat} {ports : List Nat} :
      s.phase = .sending command (i :: ports) → (s.ports i).writer = some k →
      Step clientPorts s .fail { s with phase := .dead, requests := s.write (i, k) command }
  | absent {s : Actor} {command : KVCommand} {i : Nat} {ports : List Nat} :
      s.phase = .sending command (i :: ports) → (s.ports i).writer = none →
      Step clientPorts s .look { s with phase := .sending command ports }
  -- `Couldn't send command, no node is reachable`
  | unreachable {s : Actor} {command : KVCommand} : s.phase = .sending command [] →
      Step clientPorts s .look { s with phase := .prompting }

def machine (clientPorts : List Nat) (input : List Bytes) : Machine Actor Event where
  init s := s = { ports := ClientPorts.initial, input, phase := .prompting, accepted := []
                  requests := fun _ => [] }
  step := Step clientPorts

section Transitions

variable (t : Machine.Transition Actor Event)

def lineRead : Bytes :=
  match t.event with
  | .line => (readLine t.before.input).1
  | _ => []

def commandRead : List (KVCommand × Option Nat) :=
  match t.event with
  | .line => (accepts (readLine t.before.input).1).toList
  | _ => []

end Transitions

variable {clientPorts : List Nat} {input : List Bytes} {s s' : Actor} {e : Event}
  {tr : List (Machine.Transition Actor Event)}

/-- A step reads a line, of which it keeps what it accepts, or leaves both as they are. -/
theorem Step.reads (hs : Step clientPorts s e s') :
    s'.accepted = s.accepted ++ commandRead ⟨s, e, s'⟩ ∧
    ∃ taken, s.input = taken ++ s'.input ∧ lineRead ⟨s, e, s'⟩ = heads taken := by
  have hstays : ∃ taken, s.input = taken ++ s.input ∧ [] = heads taken := ⟨[], rfl, rfl⟩
  cases hs with
  | port _ | found _ _ | fails _ _ | absent _ _ | unreachable _ =>
    exact ⟨(List.append_nil _).symm, hstays⟩
  | parsed _ htext hparse =>
    exact ⟨by simp [commandRead, accepts, htext, hparse], readLine_heads s.input⟩
  | refused _ htext hparse =>
    exact ⟨by simp [commandRead, accepts, htext, hparse], readLine_heads s.input⟩
  | noNumber _ htext hparse =>
    exact ⟨by simp [commandRead, accepts, htext, hparse], readLine_heads s.input⟩
  | noText _ htext => exact ⟨by simp [commandRead, accepts, htext], readLine_heads s.input⟩

/-- In every run the task reads of each chunk what comes up to its first newline. So it misses nothing of
what has been typed exactly if no chunk it has taken goes on behind a newline. -/
theorem typed_ahead (hrun : (machine clientPorts input).Run tr s) :
    ∃ taken, input = taken ++ s.input ∧ tr.flatMap lineRead = heads taken ∧
      (tr.flatMap lineRead = taken.flatten ↔
        ∀ chunk ∈ taken, (readUntil newline chunk).2 = []) := by
  have hread : ∃ taken, input = taken ++ s.input ∧ tr.flatMap lineRead = heads taken := by
    induction hrun with
    | nil h0 =>
      rw [h0]
      exact ⟨[], rfl, rfl⟩
    | snoc _ hs ih =>
      obtain ⟨taken, hinput, hlines⟩ := ih
      obtain ⟨-, more, hmore, hline⟩ := Step.reads hs
      refine ⟨taken ++ more, by rw [List.append_assoc, ← hmore, hinput], ?_⟩
      rw [List.flatMap_append, List.flatMap_singleton, hlines, hline, heads_append]
  obtain ⟨taken, hinput, hlines⟩ := hread
  exact ⟨taken, hinput, hlines, by rw [hlines]; exact heads_eq_flatten_iff⟩

theorem accepted_run (hrun : (machine clientPorts input).Run tr s) :
    s.accepted = tr.flatMap commandRead := by
  induction hrun with
  | nil h0 =>
    rw [h0]
    rfl
  | snoc _ hs ih => rw [List.flatMap_append, List.flatMap_singleton, (Step.reads hs).1, ih]

/-! ## Requests -/

/-- Each request has the command accepted at its place and respects its port, each command is in one
request at most, and the command that is being sent, the last one, is in none. -/
structure Filed (s : Actor) : Prop where
  command : ∀ c, ∀ r ∈ s.requests c, ∃ port, s.accepted[r.place]? = some (r.command, port) ∧
    ∀ i, port = some i → c.1 = i
  sorted : ∀ c, (s.requests c).Pairwise fun r r' => r.place < r'.place
  once : ∀ c c', ∀ r ∈ s.requests c, ∀ r' ∈ s.requests c', r.place = r'.place → c = c'
  sending : ∀ command ports, s.phase = .sending command ports →
    (∃ port, s.accepted.getLast? = some (command, port) ∧ ∀ i, port = some i → ∀ j ∈ ports, j = i) ∧
    ∀ c, ∀ r ∈ s.requests c, r.place + 1 < s.accepted.length

theorem Filed.place_lt (h : Filed s) {c : ConnId} {r : Request} (hr : r ∈ s.requests c) :
    r.place < s.accepted.length := by
  obtain ⟨port, hcommand, -⟩ := h.command c r hr
  exact (List.getElem?_eq_some_iff.mp hcommand).1

theorem Filed.inj (h : Filed s) {c c' : ConnId} {r r' : Request} (hr : r ∈ s.requests c)
    (hr' : r' ∈ s.requests c') (hplace : r.place = r'.place) : r = r' := by
  obtain ⟨port, hcommand, -⟩ := h.command c r hr
  obtain ⟨port', hcommand', -⟩ := h.command c' r' hr'
  rw [hplace, hcommand'] at hcommand
  obtain ⟨place, command⟩ := r
  obtain ⟨place', command'⟩ := r'
  cases hcommand
  cases hplace
  rfl

/-- Without a command under way, only what is filed counts. -/
theorem Filed.idle (h : Filed s) {ports : Ports} {input : List Bytes} {phase : Phase}
    (hphase : ∀ command ports, phase ≠ .sending command ports) :
    Filed { s with ports, input, phase } :=
  ⟨h.command, h.sorted, h.once, fun _ _ heq => absurd heq (hphase _ _)⟩

theorem mem_write {command : KVCommand} {c d : ConnId} {r : Request}
    (h : r ∈ s.write c command d) :
    r ∈ s.requests d ∨ d = c ∧ r = ⟨s.accepted.length - 1, command⟩ := by
  by_cases hd : d = c
  · subst hd
    rw [Actor.write, Function.update_self] at h
    rcases List.mem_append.mp h with h | h
    · exact Or.inl h
    · exact Or.inr ⟨rfl, List.mem_singleton.mp h⟩
  · rw [Actor.write, Function.update_of_ne hd] at h
    exact Or.inl h

theorem Filed.write (h : Filed s) {command : KVCommand} {i k : Nat} {ports : List Nat}
    (hphase : s.phase = .sending command (i :: ports)) {phase : Phase}
    (hidle : ∀ command ports, phase ≠ .sending command ports) :
    Filed { s with phase, requests := s.write (i, k) command } := by
  obtain ⟨⟨port, hlast, hport⟩, hbefore⟩ := h.sending command _ hphase
  have hnew : s.accepted[s.accepted.length - 1]? = some (command, port) := by
    rw [← List.getLast?_eq_getElem?, hlast]
  refine ⟨fun c r hr => ?_, fun c => ?_, fun c c' r hr r' hr' hplace => ?_,
    fun _ _ heq => absurd heq (hidle _ _)⟩
  · rcases mem_write hr with hr | ⟨rfl, rfl⟩
    · exact h.command c r hr
    · exact ⟨port, hnew, fun j hj => hport j hj i List.mem_cons_self⟩
  · show (s.write (i, k) command c).Pairwise _
    by_cases hc : c = (i, k)
    · subst hc
      rw [Actor.write, Function.update_self]
      refine List.pairwise_append.mpr ⟨h.sorted _, List.pairwise_singleton _ _, fun r hr r' hr' => ?_⟩
      rw [List.mem_singleton.mp hr']
      exact Nat.lt_sub_of_add_lt (hbefore _ r hr)
    · rw [Actor.write, Function.update_of_ne hc]
      exact h.sorted c
  · rcases mem_write hr with hr | ⟨rfl, rfl⟩ <;> rcases mem_write hr' with hr' | ⟨rfl, rfl⟩
    · exact h.once c c' r hr r' hr' hplace
    · have hlt := hbefore _ r hr
      simp only at hplace
      omega
    · have hlt := hbefore _ r' hr'
      simp only at hplace
      omega
    · rfl

theorem Filed.step (h : Filed s) (hs : Step clientPorts s e s') : Filed s' := by
  cases hs with
  | port _ => exact ⟨h.command, h.sorted, h.once, h.sending⟩
  | refused hphase _ _ => exact h.idle (by simp [hphase])
  | noNumber _ _ _ | noText _ _ | unreachable _ => exact h.idle (by simp)
  | found hphase _ | fails hphase _ => exact h.write hphase (by simp)
  | absent hphase _ =>
    refine ⟨h.command, h.sorted, h.once, fun command ports heq => ?_⟩
    cases heq
    obtain ⟨⟨port, hlast, hport⟩, hbefore⟩ := h.sending _ _ hphase
    exact ⟨⟨port, hlast, fun i hi j hj => hport i hi j (List.mem_cons_of_mem _ hj)⟩, hbefore⟩
  | @parsed text command port _ _ _ =>
    refine ⟨fun c r hr => ?_, h.sorted, h.once, fun command' ports heq => ?_⟩
    · obtain ⟨port', hcommand, hport⟩ := h.command c r hr
      exact ⟨port', by rw [List.getElem?_append_left (h.place_lt hr), hcommand], hport⟩
    · cases heq
      refine ⟨⟨port, by simp, fun i hi j hj => ?_⟩, fun c r hr => ?_⟩
      · rw [hi] at hj
        exact List.mem_singleton.mp hj
      · simpa using h.place_lt hr

theorem Filed.run (hrun : (machine clientPorts input).Run tr s) : Filed s := by
  refine hrun.invariant' ?_ fun _ _ _ h hs => h.step hs
  rintro s rfl
  constructor <;> simp

/-! ## After a reset -/

theorem panicked_number {p p' : ClientPorts.Port} {e : TaskEvent} (h : Panicked p)
    (hs : ClientPorts.TaskStep p e p') : p'.number = p.number := by
  obtain ⟨hphase, -⟩ := h
  cases hs with
  | accept h => simp [h] at hphase
  | register _ | read _ _ _ | eof _ _ _ | error _ _ _ | joinReader _ | joinReaderPanics _
  | joinHandler _ | joinHandlerPanics _ => rfl

/-- The tasks of the ports make a run of their own. -/
theorem ports_run (hrun : (machine clientPorts input).Run tr s) :
    ∃ portTr, (ClientPorts.machine clientPorts).Run portTr s.ports ∧
      ∀ t ∈ tr, ∀ e, t.event = .port e → ∃ t' ∈ portTr, t'.event = e := by
  induction hrun with
  | nil h0 => exact ⟨[], .nil (by rw [h0]; rfl), by simp⟩
  | @snoc tr s s' e _ hs ih =>
    obtain ⟨portTr, hports, hevents⟩ := ih
    cases hs with
    | @port e ports hport =>
      refine ⟨_, hports.snoc hport, fun t ht e' he' => ?_⟩
      rcases List.mem_append.mp ht with ht | ht
      · obtain ⟨t', ht', heq⟩ := hevents t ht e' he'
        exact ⟨t', List.mem_append_left _ ht', heq⟩
      · rw [List.mem_singleton.mp ht] at he'
        cases he'
        exact ⟨_, List.mem_append_right _ List.mem_cons_self, rfl⟩
    | _ =>
      refine ⟨portTr, hports, fun t ht e' he' => ?_⟩
      rcases List.mem_append.mp ht with ht | ht
      · exact hevents t ht e' he'
      · rw [List.mem_singleton.mp ht] at he'
        cases he'

/-- The command accepted at `place` has no port. -/
def Portless (s : Actor) (place : Nat) : Prop :=
  s.accepted[place]?.map Prod.snd = some none

/-- The connection that the first client port had last is gone, and its writer stays. Of the commands
accepted from the `first`-th one on, those without a port go to it. -/
structure Lost (i : Nat) (rest : List Nat) (k first : Nat) (s : Actor) : Prop where
  panicked : Panicked (s.ports i)
  number : (s.ports i).number = k
  since : first ≤ s.accepted.length
  sending : ∀ command ports, s.phase = .sending command ports → first < s.accepted.length →
    Portless s (s.accepted.length - 1) → ports = i :: rest
  gone : ∀ c, ∀ r ∈ s.requests c, first ≤ r.place → Portless s r.place → c = (i, k)

variable {i k first : Nat} {rest : List Nat}

theorem Lost.idle (h : Lost i rest k first s) {input : List Bytes} {phase : Phase}
    (hphase : ∀ command ports, phase ≠ .sending command ports) :
    Lost i rest k first { s with input, phase } :=
  ⟨h.panicked, h.number, h.since, fun _ _ heq => absurd heq (hphase _ _), h.gone⟩

theorem Lost.write (h : Lost i rest k first s) (hfiled : Filed s) {command : KVCommand}
    {j m : Nat} {ports : List Nat} (hphase : s.phase = .sending command (j :: ports))
    (hwriter : (s.ports j).writer = some m) {phase : Phase}
    (hidle : ∀ command ports, phase ≠ .sending command ports) :
    Lost i rest k first { s with phase, requests := s.write (j, m) command } := by
  refine ⟨h.panicked, h.number, h.since, fun _ _ heq => absurd heq (hidle _ _),
    fun c r hr hsince hportless => ?_⟩
  rcases mem_write hr with hr | ⟨rfl, rfl⟩
  · exact h.gone c r hr hsince hportless
  · have hlen : 0 < s.accepted.length := by
      obtain ⟨⟨port, hlast, -⟩, -⟩ := hfiled.sending _ _ hphase
      exact List.length_pos_of_mem (List.mem_of_getLast? hlast)
    have hsince' : first < s.accepted.length := by
      simp only at hsince
      omega
    obtain ⟨rfl, rfl⟩ := List.cons.inj (h.sending _ _ hphase hsince' hportless)
    rw [h.panicked.2, h.number] at hwriter
    rw [Option.some.inj hwriter]

theorem Lost.step (h : Lost i rest k first s) (hfiled : Filed s)
    (hs : Step (i :: rest) s e s') : Lost i rest k first s' := by
  cases hs with
  | @port e ports hport =>
    refine ⟨hport.panicked h.panicked, ?_, h.since, h.sending, h.gone⟩
    show (ports i).number = k
    rcases hport.port i with ⟨-, hstep⟩ | ⟨-, hsame⟩
    · rw [panicked_number h.panicked hstep, h.number]
    · rw [hsame, h.number]
  | refused hphase _ _ => exact h.idle (by simp [hphase])
  | noNumber _ _ _ | noText _ _ | unreachable _ => exact h.idle (by simp)
  | found hphase hwriter | fails hphase hwriter => exact h.write hfiled hphase hwriter (by simp)
  | absent hphase hwriter =>
    refine ⟨h.panicked, h.number, h.since, fun command ports heq hsince hportless => ?_, h.gone⟩
    obtain ⟨rfl, rfl⟩ := List.cons.inj (h.sending _ _ hphase hsince hportless)
    rw [h.panicked.2] at hwriter
    cases hwriter
  | @parsed text command port _ _ _ =>
    refine ⟨h.panicked, h.number, ?_, fun command' ports heq _ hportless => ?_,
      fun c r hr hsince hportless => ?_⟩
    · exact h.since.trans (by simp)
    · cases heq
      have hport : port = none := by simpa [Portless] using hportless
      rw [hport]
      rfl
    · refine h.gone c r hr hsince ?_
      rwa [Portless, List.getElem?_append_left (hfiled.place_lt hr)] at hportless

/-- In every run in which a read has failed on the first client port: a command accepted since then that
has no port goes, if it is sent at all, to the connection that had failed, whatever other nodes are
connected. -/
theorem lost_after_reset (hrun : (machine (i :: rest) input).Run tr s) :
    ∀ t ∈ tr, t.event = .port (i, .error) → ∀ c, ∀ r ∈ s.requests c,
      t.after.accepted.length ≤ r.place → s.accepted[r.place]? = some (r.command, none) →
      c = (i, (t.after.ports i).number) := by
  have hlost : ∀ t ∈ tr, t.event = .port (i, .error) →
      Lost i rest (t.after.ports i).number t.after.accepted.length s := by
    induction hrun with
    | nil _ => simp
    | @snoc tr s s' e hrun hs ih =>
      intro t ht herror
      rcases List.mem_append.mp ht with ht | ht
      · exact (ih t ht herror).step (Filed.run hrun) hs
      · obtain ⟨portTr, hports, hevents⟩ := ports_run (hrun.snoc hs)
        have hpanicked := ClientPorts.panicked_of_error hports
          (hevents t (List.mem_append_right _ ht) _ herror)
        have hfiled := Filed.run (hrun.snoc hs)
        rw [List.mem_singleton.mp ht]
        refine ⟨hpanicked, rfl, le_rfl, fun _ _ _ hlt => absurd hlt (Nat.lt_irrefl _),
          fun c r hr hle => ?_⟩
        exact absurd (hfiled.place_lt hr) (Nat.not_lt_of_le hle)
  intro t ht herror c r hr hle hcommand
  exact (hlost t ht herror).gone c r hr hle (by rw [Portless, hcommand]; rfl)

/-! ## Nodes -/

section Nodes

variable {Msg : Type} {codec : Codec (Message Msg) UInt8}

/-- What the reader of the client API pushes, from the bytes that arrive and the way they end. A line
that cannot be decoded panics, and any end is the last. -/
def readApi (codec : Codec (Message Msg) UInt8) (ending : Ending) (unread : Bytes) :
    List (Message Msg) :=
  if unread = [] then []
  else if newline ∈ unread ∨ ending = .eof then
    match codec.decode (readUntil newline unread).1 with
    | some m => m :: readApi codec ending (readUntil newline unread).2
    -- `expect("could not deserialize msg")`
    | none => []
  else []
termination_by unread.length
decreasing_by exact Frames.readUntil_snd_length_lt ‹_›

/-- Of messages whose lines are cut off anywhere, the reader pushes the first ones. -/
theorem readApi_prefix (laws : codec.Lawful newline) {ending : Ending} {unread : Bytes}
    {ms : List (Message Msg)} (h : unread <+: codec.lines newline ms) :
    readApi codec ending unread <+: ms := by
  induction unread using readApi.induct codec ending generalizing ms with
  | case1 =>
    rw [readApi, if_pos rfl]
    exact List.nil_prefix
  | case2 unread hne hline m hdecode ih =>
    obtain ⟨rest, rfl, hrest⟩ := Peers.decode_next laws h hne hdecode
    rw [readApi, if_neg hne, if_pos hline, hdecode]
    exact List.cons_prefix_cons.mpr ⟨rfl, ih hrest⟩
  | case3 unread hne hline hdecode =>
    rw [readApi, if_neg hne, if_pos hline, hdecode]
    exact List.nil_prefix
  | case4 unread hne hline =>
    rw [readApi, if_neg hne, if_neg hline]
    exact List.nil_prefix

/-- With an end of file behind them, it pushes all that have arrived. -/
theorem readApi_eof (laws : codec.Lawful newline) {unread : Bytes}
    {ms : List (Message Msg)} (h : unread <+: codec.lines newline ms) :
    readApi codec .eof unread = codec.arrived ms unread := by
  induction unread using readApi.induct codec .eof generalizing ms with
  | case1 => rw [readApi, if_pos rfl, laws.arrived_nil]
  | case2 unread hne hline m hdecode ih =>
    rw [readApi, if_neg hne, if_pos hline, hdecode]
    by_cases hsep : newline ∈ unread
    · obtain ⟨m', rest, rfl, hencode, hrest, harrived⟩ := laws.readUntil_lines h hsep
      rw [hencode, laws.decode_line] at hdecode
      cases hdecode
      rw [harrived, ← ih hrest]
    · rw [Frames.readUntil_of_notMem hsep] at hdecode ih ⊢
      rcases laws.arrived_of_notMem h hsep with ⟨m', rfl, harrived⟩ | ⟨-, -, hnone⟩
      · rw [laws.decode_encode] at hdecode
        cases hdecode
        rw [harrived, readApi, if_pos rfl]
      · rw [hnone hne] at hdecode
        cases hdecode
  | case3 unread hne hline hdecode =>
    rw [readApi, if_neg hne, if_pos hline, hdecode]
    by_cases hsep : newline ∈ unread
    · obtain ⟨m', rest, rfl, hencode, -, -⟩ := laws.readUntil_lines h hsep
      rw [hencode, laws.decode_line] at hdecode
      cases hdecode
    · rw [Frames.readUntil_of_notMem hsep] at hdecode
      rcases laws.arrived_of_notMem h hsep with ⟨m', rfl, -⟩ | ⟨-, harrived, -⟩
      · rw [laws.decode_encode] at hdecode
        cases hdecode
      · exact harrived.symm
  | case4 unread hne hline => exact absurd (.inr rfl) hline

/-- The messages that ask for commands. -/
def asked (Msg : Type) (accepted : List (KVCommand × Option Nat)) : List (Message Msg) :=
  accepted.map fun a => .apiRequest a.1

def Actor.messages (Msg : Type) (s : Actor) (c : ConnId) : List (Message Msg) :=
  (s.requests c).map fun r => .apiRequest r.command

/-- Connections of nodes plugged into those of the actor: `plug y` is the one that `y` is, `stream y` what
it brings the node of the lines written to it. -/
structure Plugged {ι : Type} (codec : Codec (Message Msg) UInt8) (s : Actor) (plug : ι → ConnId)
    (stream : ι → Bytes) : Prop where
  inj : ∀ y y', plug y = plug y' → y = y'
  bytes : ∀ y, stream y <+: codec.lines newline (s.messages Msg (plug y))

/-- In every run, with connections that come and go and are cut anywhere: what the client API readers of
all nodes push are requests for commands that lines typed have been accepted as, no line is pushed
twice, neither by one node nor by two, those of one connection come in the order typed, and a line with a
port reaches only the node on this port. -/
theorem requests_convey (laws : codec.Lawful newline) (hrun : (machine clientPorts input).Run tr s)
    {ι : Type} {plug : ι → ConnId} {stream : ι → Bytes} (hplug : Plugged codec s plug stream)
    (ending : ι → Ending) : ∃ origin : ι → Nat → Unit × Nat,
      Conveys (fun _ => asked Msg (tr.flatMap commandRead))
        (fun y => readApi codec (ending y) (stream y)) origin ∧
      InOrder (fun y => readApi codec (ending y) (stream y)) origin ∧
      ∀ y i, i < (readApi codec (ending y) (stream y)).length → ∃ command port,
        (tr.flatMap commandRead)[(origin y i).2]? = some (command, port) ∧
        ∀ p, port = some p → (plug y).1 = p := by
  have h := Filed.run hrun
  rw [← accepted_run hrun]
  have hpre : ∀ y, readApi codec (ending y) (stream y) <+: s.messages Msg (plug y) :=
    fun y => readApi_prefix laws (hplug.bytes y)
  have hconveys : Conveys (fun _ : Unit => asked Msg s.accepted) (s.messages Msg)
      (fun c i => ((s.requests c)[i]?.getD default).origin) := by
    refine .of_things (fun c r hr => ?_)
      (fun c c' r r' hr hr' heq => h.inj hr hr' (congrArg Prod.snd heq)) (fun c => ?_)
      fun c c' r hr hr' => h.once c c' r hr r hr' rfl
    · obtain ⟨port, hcommand, -⟩ := h.command c r hr
      rw [Request.origin, asked, List.getElem?_map, hcommand]
      rfl
    · exact (h.sorted c).imp fun hlt heq => absurd (congrArg Request.place heq) (Nat.ne_of_lt hlt)
  have hsorted : InOrder (s.messages Msg)
      (fun c i => ((s.requests c)[i]?.getD default).origin) := by
    apply InOrder.of_things
    refine fun c => List.Pairwise.imp ?_ (h.sorted c)
    exact fun hlt _ => hlt
  refine ⟨_, hconveys.read_by (fun y _ => hpre y) fun y y' _ _ => hplug.inj y y',
    hsorted.read_by hpre, fun y i hi => ?_⟩
  have hi' : i < (s.requests (plug y)).length := by
    simpa [Actor.messages] using hi.trans_le (hpre y).length_le
  obtain ⟨port, hcommand, hport⟩ := h.command (plug y) _ (List.getElem_mem hi')
  rw [List.getElem?_eq_getElem hi', Option.getD_some]
  exact ⟨_, port, hcommand, hport⟩

end Nodes

/-! ## Samples -/

/-- `get a` and a newline. -/
def getLine : Bytes := [103, 101, 116, 32, 97, 10]

theorem lineText_getLine : lineText getLine = some "get a\n" := by decide +kernel

theorem parseCommand_getLine : Parser.parseCommand "get a\n" = .ok (.ok (.get "a", none)) := by rfl

/-- Two lines in one chunk: the second one is lost. -/
theorem typed_ahead_sample : ∃ (tr : List (Machine.Transition Actor Event)) (s : Actor),
    (machine [8001] [getLine ++ getLine]).Run tr s ∧ s.input = [] ∧
    tr.flatMap lineRead ≠ getLine ++ getLine := by
  have hrun := Machine.Run.nil (M := machine [8001] [getLine ++ getLine]) rfl
  have hrun := hrun.snoc (Step.parsed rfl lineText_getLine parseCommand_getLine)
  obtain ⟨taken, hinput, -, hall⟩ := typed_ahead hrun
  have htaken : taken = [getLine ++ getLine] := by
    refine (hinput.trans ?_).symm
    exact List.append_nil taken
  refine ⟨_, _, hrun, rfl, fun heq => ?_⟩
  have hrest := (hall.mp (heq.trans (by rw [htaken]; rfl))) (getLine ++ getLine) (by simp [htaken])
  simp [getLine, readUntil, newline] at hrest

/-- `delete a` and a newline. -/
def deleteLine : Bytes := [100, 101, 108, 101, 116, 101, 32, 97, 10]

theorem lineText_deleteLine : lineText deleteLine = some "delete a\n" := by decide +kernel

theorem parseCommand_deleteLine :
    Parser.parseCommand "delete a\n" = .ok (.ok (.delete "a", none)) := by rfl

/-- Two commands go to the one node there is. -/
theorem sent_run : ∃ (tr : List (Machine.Transition Actor Event)) (s : Actor),
    (machine [8001] [getLine, deleteLine]).Run tr s ∧
    s.requests (8001, 1) = [⟨0, .get "a"⟩, ⟨1, .delete "a"⟩] := by
  have hrun := Machine.Run.nil (M := machine [8001] [getLine, deleteLine]) rfl
  have hrun := hrun.snoc (.port (.task (i := 8001) (by simp)
    (@ClientPorts.TaskStep.accept _ [] .eof rfl)))
  have hrun := hrun.snoc (.port (.task (i := 8001) (by simp) (.register rfl)))
  have hrun := hrun.snoc (Step.parsed rfl lineText_getLine parseCommand_getLine)
  have hrun := hrun.snoc (Step.found (i := 8001) (k := 1) rfl rfl)
  have hrun := hrun.snoc (Step.parsed rfl lineText_deleteLine parseCommand_deleteLine)
  have hrun := hrun.snoc (Step.found (i := 8001) (k := 1) rfl rfl)
  exact ⟨_, _, hrun, rfl⟩

/-- The second line is cut off, and the node gets the first one. -/
theorem requests_convey_sample : ∃ (tr : List (Machine.Transition Actor Event)) (s : Actor),
    (machine [8001] [getLine, deleteLine]).Run tr s ∧ ∃ stream : Bytes,
      readApi Peers.sampleCodec .eof stream = [.apiRequest (.get "a")] ∧
      ∃ origin : Unit → Nat → Unit × Nat,
        Conveys (fun _ => asked ReplicaMsg (tr.flatMap commandRead))
          (fun _ => readApi Peers.sampleCodec .eof stream) origin := by
  obtain ⟨tr, s, hrun, hrequests⟩ := sent_run
  have hprefix := Peers.cutLines_prefix (.apiRequest (.get "a")) (.apiRequest (.delete "a"))
  have hplug : Plugged Peers.sampleCodec s (fun _ : Unit => (8001, 1)) fun _ =>
      Peers.cutLines (.apiRequest (.get "a")) (.apiRequest (.delete "a")) := by
    refine ⟨fun _ _ _ => rfl, fun _ => ?_⟩
    rw [Actor.messages, hrequests]
    exact hprefix
  obtain ⟨origin, hconveys, -⟩ := requests_convey Peers.sampleCodec_lawful hrun hplug fun _ => .eof
  exact ⟨tr, s, hrun, _, (readApi_eof Peers.sampleCodec_lawful hprefix).trans
    (Peers.arrived_cutLines _ _), origin, hconveys⟩

/-- The connection on 8001 is reset, a node is there on 8002, and a command is typed. -/
theorem reset_run : ∃ (tr : List (Machine.Transition Actor Event)) (s : Actor),
    (machine [8001, 8002] [getLine]).Run tr s ∧ (s.ports 8002).writer = some 1 ∧
    s.requests (8001, 1) = [⟨0, .get "a"⟩] ∧
    ∃ t ∈ tr, t.event = .port (8001, .error) ∧ t.after.accepted = [] := by
  have hrun := Machine.Run.nil (M := machine [8001, 8002] [getLine]) rfl
  have hrun := hrun.snoc (.port (.task (i := 8001) (by simp)
    (@ClientPorts.TaskStep.accept _ [] .error rfl)))
  have hrun := hrun.snoc (.port (.task (i := 8001) (by simp) (.register rfl)))
  have hrun := hrun.snoc (.port (.task (i := 8001) (by simp) (.error rfl List.not_mem_nil rfl)))
  have hrun := hrun.snoc (.port (.task (i := 8002) (by simp)
    (@ClientPorts.TaskStep.accept _ [] .eof rfl)))
  have hrun := hrun.snoc (.port (.task (i := 8002) (by simp) (.register rfl)))
  have hrun := hrun.snoc (Step.parsed rfl lineText_getLine parseCommand_getLine)
  have hrun := hrun.snoc (Step.found (i := 8001) (k := 1) rfl rfl)
  exact ⟨_, _, hrun, rfl, rfl, _, List.mem_append_left _ (List.mem_append_left _
    (List.mem_append_left _ (List.mem_append_left _ (List.mem_append_right _ List.mem_cons_self)))),
    rfl, rfl⟩

theorem lost_after_reset_sample : ∃ (tr : List (Machine.Transition Actor Event)) (s : Actor),
    (machine [8001, 8002] [getLine]).Run tr s ∧ (s.ports 8002).writer = some 1 ∧
    s.requests (8001, 1) = [⟨0, .get "a"⟩] ∧ ∃ t ∈ tr, t.event = .port (8001, .error) ∧
      ∀ c, ∀ r ∈ s.requests c, s.accepted[r.place]? = some (r.command, none) →
        c = (8001, (t.after.ports 8001).number) := by
  obtain ⟨tr, s, hrun, hwriter, hrequests, t, ht, herror, hnone⟩ := reset_run
  refine ⟨tr, s, hrun, hwriter, hrequests, t, ht, herror, fun c r hr => ?_⟩
  exact lost_after_reset hrun t ht herror c r hr (by rw [hnone]; exact Nat.zero_le _)

end Dispatch
end OmniKV
