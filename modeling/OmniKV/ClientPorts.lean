import Mathlib.Logic.Relation
import OmniKV.Database
import OmniKV.Lib.Frames
import OmniKV.Lib.Machine

/-!
# ClientPorts

The ports on which the nodes connect with their client API (`run` of the network actor). For each port a
task loops: it spawns a handler, which accepts one connection, stores its writer in `api_sockets` and
spawns a reader. The handler waits for the reader, the loop for the handler, each with `unwrap`.

At the end of a stream the reader removes the writer and returns, and the loop listens again. At a read
error the reader panics, and with it the handler and the loop. The writer stays, and the port is closed
for good.

A connection's whole stream and how it ends are fixed when it is accepted. Binding a port and accepting
on it do not fail. `lifecycle_iff` is about runs, `stale_target` about the commands that come after.
-/

namespace OmniKV
namespace ClientPorts

open Frames (newline readUntil Ending)

/-- Where the three tasks of a port stand. -/
inductive Phase where
  | listening
  | accepted
  | reading
  | readerDone
  | readerPanicked
  | handlerDone
  | handlerPanicked
  | dead
  deriving DecidableEq

/-- A port. `writer` is its entry in `api_sockets`: the number of the connection. -/
structure Port where
  phase : Phase
  writer : Option Nat
  number : Nat
  unread : Bytes
  ending : Ending

inductive TaskEvent where
  | accept (stream : Bytes) (ending : Ending)
  | register
  | read
  | eof
  | error
  | joinReader
  | joinHandler

inductive TaskStep : Port → TaskEvent → Port → Prop where
  | accept {p : Port} {stream : Bytes} {ending : Ending} : p.phase = .listening →
      TaskStep p (.accept stream ending)
        { p with phase := .accepted, number := p.number + 1, unread := stream, ending := ending }
  | register {p : Port} : p.phase = .accepted →
      TaskStep p .register { p with phase := .reading, writer := some p.number }
  | read {p : Port} : p.phase = .reading → p.unread ≠ [] →
      newline ∈ p.unread ∨ p.ending = .eof →
      TaskStep p .read { p with unread := (readUntil newline p.unread).2 }
  | eof {p : Port} : p.phase = .reading → p.unread = [] → p.ending = .eof →
      TaskStep p .eof { p with phase := .readerDone, writer := none }
  -- `read_until(..).await.unwrap()`
  | error {p : Port} : p.phase = .reading → newline ∉ p.unread → p.ending = .error →
      TaskStep p .error { p with phase := .readerPanicked }
  | joinReader {p : Port} : p.phase = .readerDone →
      TaskStep p .joinReader { p with phase := .handlerDone }
  | joinReaderPanics {p : Port} : p.phase = .readerPanicked →
      TaskStep p .joinReader { p with phase := .handlerPanicked }
  | joinHandler {p : Port} : p.phase = .handlerDone →
      TaskStep p .joinHandler { p with phase := .listening }
  | joinHandlerPanics {p : Port} : p.phase = .handlerPanicked →
      TaskStep p .joinHandler { p with phase := .dead }

abbrev Ports := Nat → Port

def initial : Ports := fun _ =>
  { phase := .listening, writer := none, number := 0, unread := [], ending := .eof }

inductive Step (clientPorts : List Nat) : Ports → Nat × TaskEvent → Ports → Prop where
  | task {s : Ports} {i : Nat} {e : TaskEvent} {p : Port} : i ∈ clientPorts →
      TaskStep (s i) e p → Step clientPorts s (i, e) (Function.update s i p)

def machine (clientPorts : List Nat) : Machine Ports (Nat × TaskEvent) where
  init s := s = initial
  step := Step clientPorts

/-- The writer a command goes to: that of its port, or else of the first port that has one. -/
def target (clientPorts : List Nat) (s : Ports) : Option Nat → Option Nat
  | some i => if (s i).writer.isSome then some i else none
  | none => clientPorts.find? fun i => (s i).writer.isSome

/-! ## The end of a connection -/

/-- A step that needs no connection to come in. -/
def OwnStep (p p' : Port) : Prop :=
  ∃ e, TaskStep p e p' ∧ ∀ stream ending, e ≠ .accept stream ending

/-- The tasks have finished their steps for the connections there were. -/
def Settled (p : Port) : Prop := p.phase = .listening ∨ p.phase = .dead

/-- There is no writer, and the next connection is accepted and has its writer stored. -/
structure Clean (p : Port) : Prop where
  writer : p.writer = none
  listening : p.phase = .listening
  accepts : ∀ stream ending, ∃ p₁ p₂, TaskStep p (.accept stream ending) p₁ ∧
    TaskStep p₁ .register p₂ ∧ p₂.writer = some (p.number + 1)

/-- However the tasks go on, they leave the port clean. -/
def Recovers (p : Port) : Prop :=
  ∀ p', Relation.ReflTransGen OwnStep p p' → Settled p' → Clean p'

/-- The connection accepted, if one is, ends with an end of file. -/
def EndsWithEof (t : Machine.Transition Ports (Nat × TaskEvent)) : Prop :=
  ∀ stream ending, t.event.2 = .accept stream ending → ending = .eof

theorem Clean.of_listening {p : Port} (hwriter : p.writer = none) (hphase : p.phase = .listening) :
    Clean p where
  writer := hwriter
  listening := hphase
  accepts _ _ := ⟨_, _, .accept hphase, .register rfl, rfl⟩

/-- Steps that are left, with a read for each byte. -/
def stepsLeft (p : Port) : Nat :=
  match p.phase with
  | .listening | .dead => 0
  | .handlerDone | .handlerPanicked => 1
  | .readerDone | .readerPanicked => 2
  | .reading => 3 + p.unread.length
  | .accepted => 4 + p.unread.length

theorem exists_ownStep {p : Port} (h : ¬Settled p) :
    ∃ p', OwnStep p p' ∧ stepsLeft p' < stepsLeft p := by
  unfold Settled at h
  cases hphase : p.phase with
  | listening => exact absurd (.inl hphase) h
  | dead => exact absurd (.inr hphase) h
  | accepted =>
    exact ⟨_, ⟨_, .register hphase, by simp⟩, by simp [stepsLeft, hphase]⟩
  | readerDone =>
    exact ⟨_, ⟨_, .joinReader hphase, by simp⟩, by simp [stepsLeft, hphase]⟩
  | readerPanicked =>
    exact ⟨_, ⟨_, .joinReaderPanics hphase, by simp⟩, by simp [stepsLeft, hphase]⟩
  | handlerDone =>
    exact ⟨_, ⟨_, .joinHandler hphase, by simp⟩, by simp [stepsLeft, hphase]⟩
  | handlerPanicked =>
    exact ⟨_, ⟨_, .joinHandlerPanics hphase, by simp⟩, by simp [stepsLeft, hphase]⟩
  | reading =>
    cases hending : p.ending with
    | eof =>
      by_cases hunread : p.unread = []
      · refine ⟨_, ⟨_, .eof hphase hunread hending, by simp⟩, ?_⟩
        simp [stepsLeft, hphase]
        omega
      · refine ⟨_, ⟨_, .read hphase hunread (.inr hending), by simp⟩, ?_⟩
        simpa [stepsLeft, hphase] using Frames.readUntil_snd_length_lt hunread
    | error =>
      by_cases hnewline : newline ∈ p.unread
      · have hunread := List.ne_nil_of_mem hnewline
        refine ⟨_, ⟨_, .read hphase hunread (.inl hnewline), by simp⟩, ?_⟩
        simpa [stepsLeft, hphase] using Frames.readUntil_snd_length_lt hunread
      · refine ⟨_, ⟨_, .error hphase hnewline hending, by simp⟩, ?_⟩
        simp [stepsLeft, hphase]
        omega

/-- The tasks of a port come to the end of their steps. -/
theorem exists_settled (p : Port) : ∃ p', Relation.ReflTransGen OwnStep p p' ∧ Settled p' := by
  induction hleft : stepsLeft p using Nat.strongRecOn generalizing p with
  | ind n ih =>
    by_cases hp : Settled p
    · exact ⟨p, .refl, hp⟩
    · obtain ⟨p₁, hstep, hlt⟩ := exists_ownStep hp
      obtain ⟨p', hreach, hp'⟩ := ih _ (hleft ▸ hlt) p₁ rfl
      exact ⟨p', .head hstep hreach, hp'⟩

/-! ## Two kinds of ports -/

/-- The connection ends with an end of file, and nothing has panicked. -/
def Healthy (p : Port) : Prop :=
  match p.phase with
  | .listening | .readerDone | .handlerDone => p.writer = none
  | .accepted => p.writer = none ∧ p.ending = .eof
  | .reading => p.ending = .eof
  | .readerPanicked | .handlerPanicked | .dead => False

/-- A connection ends with an error, and from when it is registered its writer stays. -/
def Doomed (p : Port) : Prop :=
  match p.phase with
  | .listening | .readerDone | .handlerDone => False
  | .accepted => p.ending = .error
  | .reading => p.writer = some p.number ∧ p.ending = .error
  | .readerPanicked | .handlerPanicked | .dead => p.writer = some p.number

variable {p p' : Port} {e : TaskEvent}

theorem Healthy.step (h : Healthy p) (hs : TaskStep p e p')
    (he : ∀ stream, e ≠ .accept stream .error) : Healthy p' := by
  unfold Healthy at h
  cases hs with
  | @accept stream ending hphase =>
    rw [hphase] at h
    cases ending with
    | eof => exact ⟨h, rfl⟩
    | error => exact absurd rfl (he stream)
  | register hphase =>
    rw [hphase] at h
    exact h.2
  | read hphase _ _ =>
    rw [hphase] at h
    rw [Healthy, hphase]
    exact h
  | eof _ _ _ => exact rfl
  | error hphase _ hending =>
    rw [hphase, hending] at h
    cases h
  | joinReader hphase | joinHandler hphase =>
    rw [hphase] at h
    exact h
  | joinReaderPanics hphase | joinHandlerPanics hphase =>
    rw [hphase] at h
    exact h.elim

/-- From a listening port, an accepted connection that ends with an error leads astray. -/
theorem Doomed.of_accept {stream : Bytes} (hs : TaskStep p (.accept stream .error) p') :
    Doomed p' := by
  cases hs with
  | accept _ => exact rfl

theorem Doomed.step (h : Doomed p) (hs : TaskStep p e p') : Doomed p' := by
  unfold Doomed at h
  cases hs with
  | accept hphase | joinReader hphase | joinHandler hphase =>
    rw [hphase] at h
    exact h.elim
  | register hphase =>
    rw [hphase] at h
    exact ⟨rfl, h⟩
  | read hphase _ _ =>
    rw [hphase] at h
    rw [Doomed, hphase]
    exact h
  | eof hphase _ hending =>
    rw [hphase, hending] at h
    cases h.2
  | error hphase _ _ =>
    rw [hphase] at h
    exact h.1
  | joinReaderPanics hphase | joinHandlerPanics hphase =>
    rw [hphase] at h
    exact h

/-- What each step of its own keeps holds of a port wherever these lead. -/
theorem OwnStep.invariant {I : Port → Prop} (hstep : ∀ p p', I p → OwnStep p p' → I p')
    (h : I p) (hreach : Relation.ReflTransGen OwnStep p p') : I p' := by
  induction hreach with
  | refl => exact h
  | tail _ hs ih => exact hstep _ _ ih hs

theorem Healthy.recovers (h : Healthy p) : Recovers p := by
  intro p' hreach hsettled
  have hp' : Healthy p' := by
    refine OwnStep.invariant ?_ h hreach
    rintro p p' h ⟨e, hstep, hown⟩
    exact h.step hstep fun stream => hown stream .error
  unfold Healthy at hp'
  rcases hsettled with hphase | hphase
  · rw [hphase] at hp'
    exact .of_listening hp' hphase
  · rw [hphase] at hp'
    exact hp'.elim

theorem Doomed.not_recovers (h : Doomed p) : ¬Recovers p := by
  intro hrecovers
  obtain ⟨p', hreach, hsettled⟩ := exists_settled p
  have hp' : Doomed p' := by
    refine OwnStep.invariant ?_ h hreach
    rintro p p' h ⟨e, hstep, -⟩
    exact h.step hstep
  have hlistening := (hrecovers p' hreach hsettled).listening
  rw [Doomed, hlistening] at hp'
  exact hp'

/-! ## Runs -/

variable {clientPorts : List Nat} {s s' : Ports} {event : Nat × TaskEvent}
  {tr : List (Machine.Transition Ports (Nat × TaskEvent))}

/-- A step is one of the tasks of its port, and the other ports stay as they are. -/
theorem Step.port (hs : Step clientPorts s event s') (i : Nat) :
    event.1 = i ∧ TaskStep (s i) event.2 (s' i) ∨ event.1 ≠ i ∧ s' i = s i := by
  cases hs with
  | @task j e p hj hstep =>
    by_cases hij : j = i
    · subst hij
      rw [Function.update_self]
      exact .inl ⟨rfl, hstep⟩
    · exact .inr ⟨hij, Function.update_of_ne (Ne.symm hij) _ _⟩

theorem Step.healthy {i : Nat} (hs : Step clientPorts s event s') (h : Healthy (s i))
    (heof : event.1 = i → EndsWithEof ⟨s, event, s'⟩) : Healthy (s' i) := by
  rcases hs.port i with ⟨hi, hstep⟩ | ⟨-, hsame⟩
  · refine h.step hstep fun stream haccept => ?_
    cases heof hi stream .error haccept
  · rwa [hsame]

theorem Step.doomed {i : Nat} (hs : Step clientPorts s event s') (h : Doomed (s i)) :
    Doomed (s' i) := by
  rcases hs.port i with ⟨-, hstep⟩ | ⟨-, hsame⟩
  · exact h.step hstep
  · rwa [hsame]

/-- A connection that is accepted and ends with an error dooms its port. -/
theorem Step.doomed_of_error {i : Nat} (hs : Step clientPorts s event s') (hi : event.1 = i)
    (herror : ¬EndsWithEof ⟨s, event, s'⟩) : Doomed (s' i) := by
  rcases hs.port i with ⟨-, hstep⟩ | ⟨hne, -⟩
  · have haccept : ∃ stream, event.2 = .accept stream .error := by
      by_contra hnot
      refine herror fun stream ending heq => ?_
      cases ending with
      | eof => rfl
      | error => exact absurd ⟨stream, heq⟩ hnot
    obtain ⟨stream, haccept⟩ := haccept
    rw [haccept] at hstep
    exact .of_accept hstep
  · exact absurd hi hne

/-- A port is healthy as long as its connections end with an end of file, and doomed from then on. -/
theorem healthy_or_doomed (hrun : (machine clientPorts).Run tr s) (i : Nat) :
    (Healthy (s i) ∧ ∀ t ∈ tr, t.event.1 = i → EndsWithEof t) ∨
      (Doomed (s i) ∧ ∃ t ∈ tr, ¬EndsWithEof t) := by
  induction hrun with
  | nil hinit =>
    rw [hinit]
    exact .inl ⟨rfl, by simp⟩
  | @snoc tr s s' event _ hs ih =>
    simp only [List.mem_append, List.mem_singleton, or_imp, forall_and, forall_eq]
    rcases ih with ⟨hhealthy, hall⟩ | ⟨hdoomed, t, ht, herror⟩
    · by_cases heof : event.1 = i → EndsWithEof ⟨s, event, s'⟩
      · exact .inl ⟨Step.healthy hs hhealthy heof, hall, heof⟩
      · obtain ⟨hi, herror⟩ := Classical.not_imp.mp heof
        exact .inr ⟨Step.doomed_of_error hs hi herror, _, .inr rfl, herror⟩
    · exact .inr ⟨Step.doomed hs hdoomed, t, .inl ht, herror⟩

/-- In every run the tasks of each port can finish their steps, and they leave all ports clean if and
only if each connection accepted ends with an end of file. -/
theorem lifecycle_iff (hrun : (machine clientPorts).Run tr s) :
    (∀ i, ∃ p', Relation.ReflTransGen OwnStep (s i) p' ∧ Settled p') ∧
    ((∀ i, Recovers (s i)) ↔ ∀ t ∈ tr, EndsWithEof t) := by
  refine ⟨fun i => exists_settled (s i), ?_, ?_⟩
  · intro h t ht
    rcases healthy_or_doomed hrun t.event.1 with ⟨-, hall⟩ | ⟨hdoomed, -⟩
    · exact hall t ht rfl
    · exact absurd (h _) hdoomed.not_recovers
  · intro h i
    rcases healthy_or_doomed hrun i with ⟨hhealthy, -⟩ | ⟨-, t, ht, herror⟩
    · exact hhealthy.recovers
    · exact absurd (h t ht) herror

/-- A connection on 8001 is reset. -/
theorem reset_run : ∃ (tr : List (Machine.Transition Ports (Nat × TaskEvent))) (s : Ports),
    (machine [8001, 8002]).Run tr s ∧ (s 8001).writer = some 1 ∧ (s 8001).phase = .dead := by
  have hrun := Machine.Run.nil (M := machine [8001, 8002]) rfl
  have hrun := hrun.snoc (.task (i := 8001) (by simp) (@TaskStep.accept _ [] .error rfl))
  have hrun := hrun.snoc (.task (i := 8001) (by simp) (.register rfl))
  have hrun := hrun.snoc (.task (i := 8001) (by simp) (.error rfl List.not_mem_nil rfl))
  have hrun := hrun.snoc (.task (i := 8001) (by simp) (.joinReaderPanics rfl))
  have hrun := hrun.snoc (.task (i := 8001) (by simp) (.joinHandlerPanics rfl))
  exact ⟨_, _, hrun, rfl, rfl⟩

/-- Its tasks have finished their steps, and left a writer and no listener. -/
theorem stale_writer : ∃ (tr : List (Machine.Transition Ports (Nat × TaskEvent))) (s : Ports),
    (machine [8001, 8002]).Run tr s ∧ Settled (s 8001) ∧ ¬Clean (s 8001) := by
  obtain ⟨tr, s, hrun, hwriter, hphase⟩ := reset_run
  refine ⟨tr, s, hrun, .inr hphase, fun hclean => ?_⟩
  rw [hclean.writer] at hwriter
  cases hwriter

/-- A connection on 8002 sends a byte and ends, and the port listens again. -/
theorem lifecycle_iff_sample : ∃ (tr : List (Machine.Transition Ports (Nat × TaskEvent))) (s : Ports),
    (machine [8001, 8002]).Run tr s ∧ (s 8002).number = 1 ∧ (s 8002).phase = .listening ∧
    ∀ i, Recovers (s i) := by
  have hrun := Machine.Run.nil (M := machine [8001, 8002]) rfl
  have hrun := hrun.snoc (.task (i := 8002) (by simp) (@TaskStep.accept _ [7] .eof rfl))
  have hrun := hrun.snoc (.task (i := 8002) (by simp) (.register rfl))
  have hrun := hrun.snoc (.task (i := 8002) (by simp) (.read rfl (List.cons_ne_nil _ _) (.inr rfl)))
  have hrun := hrun.snoc (.task (i := 8002) (by simp) (.eof rfl rfl rfl))
  have hrun := hrun.snoc (.task (i := 8002) (by simp) (.joinReader rfl))
  have hrun := hrun.snoc (.task (i := 8002) (by simp) (.joinHandler rfl))
  refine ⟨_, _, hrun, rfl, rfl, (lifecycle_iff hrun).2.mpr ?_⟩
  simp [EndsWithEof]

/-! ## Commands -/

/-- The tasks of a port have panicked, or are about to. -/
def Panicked (p : Port) : Prop :=
  (p.phase = .readerPanicked ∨ p.phase = .handlerPanicked ∨ p.phase = .dead) ∧
    p.writer = some p.number

theorem Panicked.step (h : Panicked p) (hs : TaskStep p e p') : Panicked p' := by
  obtain ⟨hphase, hwriter⟩ := h
  cases hs with
  | joinReaderPanics _ => exact ⟨.inr (.inl rfl), hwriter⟩
  | joinHandlerPanics _ => exact ⟨.inr (.inr rfl), hwriter⟩
  | accept h | register h | read h _ _ | eof h _ _ | error h _ _ | joinReader h | joinHandler h =>
    simp [h] at hphase

theorem Doomed.panics (h : Doomed p) (hs : TaskStep p .error p') : Panicked p' := by
  cases hs with
  | error hphase _ _ =>
    rw [Doomed, hphase] at h
    exact ⟨.inl rfl, h.1⟩

theorem Healthy.no_error (h : Healthy p) : ¬TaskStep p .error p' := by
  intro hs
  cases hs with
  | error hphase _ hending =>
    rw [Healthy, hphase, hending] at h
    cases h

theorem Step.panicked {i : Nat} (hs : Step clientPorts s event s') (h : Panicked (s i)) :
    Panicked (s' i) := by
  rcases hs.port i with ⟨-, hstep⟩ | ⟨-, hsame⟩
  · exact h.step hstep
  · rwa [hsame]

theorem panicked_of_error (hrun : (machine clientPorts).Run tr s) {i : Nat}
    (h : ∃ t ∈ tr, t.event = (i, .error)) : Panicked (s i) := by
  induction hrun with
  | nil _ => simp at h
  | @snoc tr s s' event hr hs ih =>
    obtain ⟨t, ht, he⟩ := h
    rcases List.mem_append.mp ht with ht | ht
    · exact Step.panicked hs (ih ⟨t, ht, he⟩)
    · obtain rfl := List.mem_singleton.mp ht
      cases he
      rcases Step.port hs i with ⟨-, hstep⟩ | ⟨hne, -⟩
      · rcases healthy_or_doomed hr i with ⟨hhealthy, -⟩ | ⟨hdoomed, -⟩
        · exact absurd hstep hhealthy.no_error
        · exact hdoomed.panics hstep
      · exact absurd rfl hne

/-- Once a read has failed on the first client port, every command without a port goes to the writer of
the connection that is gone. -/
theorem stale_target {i : Nat} {rest : List Nat} (hrun : (machine (i :: rest)).Run tr s)
    (h : ∃ t ∈ tr, t.event = (i, .error)) : target (i :: rest) s none = some i := by
  have hwriter := (panicked_of_error hrun h).2
  simp [target, hwriter]

end ClientPorts
end OmniKV
