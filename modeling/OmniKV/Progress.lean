import OmniKV.Links

/-!
# Progress

The relay does not block. Broadcast channels take messages whether or not anybody reads them, so the
central actor always comes to the end of its queue (`drains`), and a reading task that waits for a place
in the queue gets one. `reader_ends` follows one connection to its end from whatever state the others
are in.
-/

namespace OmniKV
namespace Relay

open Frames (newline readUntil)
open Links (held)

variable {mapping : Nat → Option Nat} {capacity centralCapacity : Nat}
  {tr : List (Machine.Transition Relay Event)} {s s' : Relay} {e : Event}

/-! ## The central actor -/

def Event.OfCentral : Event → Prop
  | .recv _ | .skip _ | .check _ | .look _ _ | .giveUp _ | .send _ _ => True
  | _ => False

/-- What becomes of a message as the channels are: it is sent on the channel of its port, or dropped. -/
def due (outChannels : Nat → Option Nat) (m : Parcel) : List (Parcel × Nat) :=
  ((outChannels m.toPort).map fun k => (m, k)).toList

/-- What becomes of the message the central actor has in hand. -/
def inHand (s : Relay) : List (Parcel × Nat) :=
  match s.central with
  | .idle => []
  | .checking m | .trying m => due s.outChannels m
  | .sending m k => [(m, k)]

/-- The state with the queue empty and the central actor idle. -/
def drained (s : Relay) : Relay :=
  { s with
    central := .idle
    queue := []
    sends := s.sends ++ s.inHand ++ s.queue.flatMap (due s.outChannels) }

theorem sending_finishes {m : Parcel} {k : Nat} (hc : s.central = .sending m k) :
    (machine mapping capacity centralCapacity).Steps Event.OfCentral s
      { s with central := .idle, sends := s.sends ++ s.inHand } := by
  rw [inHand, hc]
  exact .cons (e := .send m k) trivial (.send hc) .refl

theorem trying_finishes {m : Parcel} (hc : s.central = .trying m) :
    (machine mapping capacity centralCapacity).Steps Event.OfCentral s
      { s with central := .idle, sends := s.sends ++ s.inHand } := by
  rw [inHand, hc]
  cases hk : s.outChannels m.toPort with
  | none =>
    simp only [due, hk, Option.map_none, Option.toList_none, List.append_nil]
    exact .cons (e := .giveUp m) trivial (.giveUp hc hk) .refl
  | some k =>
    simp only [due, hk, Option.map_some, Option.toList_some]
    exact .cons (e := .look m k) trivial (.look hc hk) (sending_finishes rfl)

theorem checking_finishes {m : Parcel} (hc : s.central = .checking m) :
    (machine mapping capacity centralCapacity).Steps Event.OfCentral s
      { s with central := .idle, sends := s.sends ++ s.inHand } := by
  cases hk : s.outChannels m.toPort with
  | none =>
    simp only [inHand, hc, due, hk, Option.map_none, Option.toList_none, List.append_nil]
    exact .cons (e := .skip m) trivial (.skip hc hk) .refl
  | some k =>
    have hstep : Step mapping capacity centralCapacity s (.check m) { s with central := .trying m } :=
      .check hc (by simp [hk])
    rw [inHand, hc]
    exact .cons (e := .check m) trivial hstep (trying_finishes rfl)

theorem queue_drains (hc : s.central = .idle) :
    (machine mapping capacity centralCapacity).Steps Event.OfCentral s
      { s with
        central := .idle
        queue := []
        sends := s.sends ++ s.queue.flatMap (due s.outChannels) } := by
  induction hq : s.queue generalizing s with
  | nil =>
    rw [List.flatMap_nil, List.append_nil, ← hq, ← hc]
    exact .refl
  | cons m rest ih =>
    have hrecv : Step mapping capacity centralCapacity s (.recv m)
        { s with central := .checking m, queue := rest } := .recv hc hq
    have hfinish : (machine mapping capacity centralCapacity).Steps Event.OfCentral
        { s with central := .checking m, queue := rest }
        { s with central := .idle, queue := rest, sends := s.sends ++ due s.outChannels m } :=
      checking_finishes rfl
    have hrest := ih (s := { s with
      central := .idle
      queue := rest
      sends := s.sends ++ due s.outChannels m }) rfl rfl
    refine .cons (e := .recv m) trivial hrecv (hfinish.trans ?_)
    rw [List.flatMap_cons, ← List.append_assoc]
    exact hrest

/-- The central actor comes to the end of its queue by itself. On the way it sends each message on the
channel its port has, and drops those whose port has none. -/
theorem drains (s : Relay) :
    (machine mapping capacity centralCapacity).Steps Event.OfCentral s s.drained := by
  have hfinish : (machine mapping capacity centralCapacity).Steps Event.OfCentral s
      { s with central := .idle, sends := s.sends ++ s.inHand } := by
    cases hc : s.central with
    | idle =>
      rw [inHand, hc, List.append_nil, ← hc]
      exact .refl
    | checking m => exact checking_finishes hc
    | trying m => exact trying_finishes hc
    | sending m k => exact sending_finishes hc
  exact hfinish.trans (queue_drains rfl)

/-! ## Reading tasks -/

/-- A step of the task that reads `c`, or of the central actor. -/
def Event.OfReader (c : ConnId) : Event → Prop
  | .read c' _ | .push c' _ | .close c' => c' = c
  | e => e.OfCentral

theorem Event.OfCentral.ofReader {c : ConnId} : ∀ e : Event, e.OfCentral → e.OfReader c := by
  intro e he
  cases e <;> first | exact he | cases he

/-- From `s` to `s'`, the task has read `ms` and has come to the end of its connection. All it had read,
and all that was on its way before, is sent on the channels of its port or dropped for want of one, in
order. -/
structure Finished (mapping : Nat → Option Nat) (s : Relay) (c : ConnId) (ms : List Parcel)
    (s' : Relay) : Prop where
  ended : (s'.conn c).receiver = .ended
  queue : s'.queue = []
  central : s'.central = .idle
  read : s'.read = s.read ++ ms
  sends : s'.sends = s.sends ++ s.inHand ++ s.queue.flatMap (due s.outChannels) ++
    (held s c ++ ms).flatMap (due s.outChannels)
  ports : ∀ m ∈ ms, m.fromPort = c.1 ∧ mapping c.1 = some m.toPort
  stream : (ms.map Parcel.data).flatten ++ (s'.conn c).unread = (s.conn c).unread
  rest : newline ∉ (s'.conn c).unread ∧ ((s.conn c).ending = .eof → (s'.conn c).unread = [])

variable {c : ConnId} {m : Parcel}

/-- What the next read of `c` takes, as a message for `q`. -/
def nextParcel (s : Relay) (c : ConnId) (q : Nat) : Parcel :=
  ⟨s.read.length, c.1, q, (readUntil newline (s.conn c).unread).1, newline ∉ (s.conn c).unread⟩

/-- The state after `m` has been read from `c`. -/
def hasRead (s : Relay) (c : ConnId) (m : Parcel) (unread : Bytes) : Relay :=
  { s with
    conn := Function.update s.conn c { s.conn c with unread := unread, receiver := .holding m }
    read := s.read ++ [m] }

/-- The state in which the message that `c` held is the only one on its way. -/
def hasPushed (s : Relay) (c : ConnId) (m : Parcel) : Relay :=
  { s.drained with
    conn := Function.update s.conn c { s.conn c with receiver := .reading }
    queue := [m] }

@[simp]
theorem held_hasRead (unread : Bytes) : held (s.hasRead c m unread) c = [m] :=
  Links.held_of_holding (by simp [hasRead])

@[simp]
theorem unread_hasRead (unread : Bytes) : ((s.hasRead c m unread).conn c).unread = unread := by
  simp [hasRead]

@[simp]
theorem held_hasPushed : held (s.hasPushed c m) c = [] :=
  Links.held_of_reading (by simp [hasPushed])

@[simp]
theorem unread_hasPushed : ((s.hasPushed c m).conn c).unread = (s.conn c).unread := by
  simp [hasPushed]

/-- The task that waits for a place in the queue gets one. -/
theorem pushes (hcapacity : 0 < centralCapacity) (hm : s.Held c m) :
    (machine mapping capacity centralCapacity).Steps (Event.OfReader c) s (s.hasPushed c m) := by
  have hpush : Step mapping capacity centralCapacity s.drained (.push c m) (s.hasPushed c m) :=
    .push hm hcapacity
  exact ((drains s).mono Event.OfCentral.ofReader).trans (.cons (e := .push c m) rfl hpush .refl)

theorem Finished.of_read {ms : List Parcel} {unread : Bytes}
    (hreading : (s.conn c).receiver = .reading) (hfrom : m.fromPort = c.1)
    (hto : mapping c.1 = some m.toPort) (hm : m.data ++ unread = (s.conn c).unread)
    (h : Finished mapping (s.hasRead c m unread) c ms s') : Finished mapping s c (m :: ms) s' where
  ended := h.ended
  queue := h.queue
  central := h.central
  read := by rw [h.read, hasRead, List.append_assoc, List.singleton_append]
  sends := by
    rw [h.sends, held_hasRead, Links.held_of_reading hreading]
    rfl
  ports := List.forall_mem_cons.mpr ⟨⟨hfrom, hto⟩, h.ports⟩
  stream := by rw [List.map_cons, List.flatten_cons, List.append_assoc, h.stream, unread_hasRead, hm]
  rest := by simpa [hasRead] using h.rest

theorem Finished.of_push {ms : List Parcel} (hm : s.Held c m)
    (h : Finished mapping (s.hasPushed c m) c ms s') : Finished mapping s c ms s' where
  ended := h.ended
  queue := h.queue
  central := h.central
  read := h.read
  sends := by
    rw [h.sends, held_hasPushed, Links.held_of_holding hm]
    simp [hasPushed, drained, inHand]
  ports := h.ports
  stream := by rw [h.stream, unread_hasPushed]
  rest := by simpa [hasPushed] using h.rest

/-- A task that finds no message in the bytes it still has leaves its loop. -/
theorem Finished.of_close (hreading : (s.conn c).receiver = .reading)
    (hno : newline ∉ (s.conn c).unread) (heof : (s.conn c).ending = .eof → (s.conn c).unread = []) :
    Finished mapping s c [] (s.setConn c { s.conn c with receiver := .ended }).drained where
  ended := by simp [drained, setConn]
  queue := rfl
  central := rfl
  read := (List.append_nil _).symm
  sends := by simp [drained, setConn, Links.held_of_reading hreading, inHand]
  ports := by simp
  stream := by simp [drained, setConn]
  rest := by simpa [drained, setConn] using ⟨hno, heof⟩

theorem reader_ends (hcapacity : 0 < centralCapacity) {q : Nat} (hmapping : mapping c.1 = some q)
    (hr : (s.conn c).receiver = .reading ∨ ∃ m, s.Held c m) :
    ∃ ms s', (machine mapping capacity centralCapacity).Steps (Event.OfReader c) s s' ∧
      Finished mapping s c ms s' := by
  -- a read makes the bytes fewer, a push empties the hand
  induction hlen : 2 * (s.conn c).unread.length + (held s c).length using Nat.strong_induction_on
    generalizing s with
  | _ len ih =>
    subst hlen
    rcases hr with hreading | ⟨m, hm⟩
    · have hheld : held s c = [] := Links.held_of_reading hreading
      by_cases hdata : (s.conn c).unread ≠ [] ∧
          (newline ∈ (s.conn c).unread ∨ (s.conn c).ending = .eof)
      · obtain ⟨hne, hline⟩ := hdata
        have hlt : (readUntil newline (s.conn c).unread).2.length < (s.conn c).unread.length :=
          Frames.readUntil_snd_length_lt hne
        obtain ⟨ms, s', hsteps, hfinished⟩ := ih _
          (by rw [held_hasRead, unread_hasRead, hheld]; simp; omega)
          (s := s.hasRead c (s.nextParcel c q) (readUntil newline (s.conn c).unread).2)
          (Or.inr ⟨s.nextParcel c q, by simp [Held, hasRead]⟩) rfl
        have hread : Step mapping capacity centralCapacity s (.read c (s.nextParcel c q))
            (s.hasRead c (s.nextParcel c q) (readUntil newline (s.conn c).unread).2) :=
          .read hreading hne hline hmapping
        exact ⟨_, s', .cons (show Event.OfReader c (.read c _) from rfl) hread hsteps,
          hfinished.of_read hreading rfl hmapping (Frames.readUntil_append _)⟩
      · have hno : newline ∉ (s.conn c).unread := by
          intro hmem
          exact hdata ⟨List.ne_nil_of_mem hmem, Or.inl hmem⟩
        have heof : (s.conn c).ending = .eof → (s.conn c).unread = [] := by
          intro he
          by_contra hne
          exact hdata ⟨hne, Or.inr he⟩
        have hclose : Step mapping capacity centralCapacity s (.close c)
            (s.setConn c { s.conn c with receiver := .ended }) := by
          refine .close hreading hno ?_
          cases he : (s.conn c).ending with
          | eof => exact Or.inl (heof he)
          | error => exact Or.inr rfl
        exact ⟨[], _, .cons (show Event.OfReader c (.close c) from rfl) hclose
          ((drains _).mono Event.OfCentral.ofReader), .of_close hreading hno heof⟩
    · obtain ⟨ms, s', hsteps, hfinished⟩ := ih _
        (by rw [held_hasPushed, unread_hasPushed, Links.held_of_holding hm]; simp)
        (s := s.hasPushed c m) (Or.inl (by simp [hasPushed])) rfl
      exact ⟨ms, s', (pushes hcapacity hm).trans hsteps, hfinished.of_push hm⟩

/-- Only connections of mapped ports are handled. -/
structure Mapped (mapping : Nat → Option Nat) (s : Relay) : Prop where
  handler : ∀ p, s.handler p ≠ .absent → (mapping p).isSome
  receiver : ∀ c, (s.conn c).receiver ≠ .waiting → (mapping c.1).isSome

theorem Mapped.initial : Mapped mapping (initial mapping) where
  handler p hp := by
    by_contra hnone
    exact hp (by simp [Relay.initial, hnone])
  receiver c hc := absurd rfl hc

theorem Mapped.goes (h : Mapped mapping s) {p : Nat} {handler : Handler}
    (hp : s.handler p ≠ .absent) : ∀ q, Function.update s.handler p handler q ≠ .absent →
      (mapping q).isSome := by
  intro q hq
  by_cases heq : q = p
  · subst heq
    exact h.handler q hp
  · exact h.handler q (by simpa [heq] using hq)

theorem Mapped.setConn (h : Mapped mapping s) {conn : Conn}
    (hc : conn.receiver ≠ .waiting → (mapping c.1).isSome) : ∀ c',
      (Function.update s.conn c conn c').receiver ≠ .waiting → (mapping c'.1).isSome := by
  intro c' hc'
  by_cases heq : c' = c
  · subst heq
    exact hc (by simpa using hc')
  · exact h.receiver c' (by simpa [heq] using hc')

theorem Mapped.step (h : Mapped mapping s) (hs : Step mapping capacity centralCapacity s e s') :
    Mapped mapping s' := by
  cases hs with
  | accept hp =>
    exact ⟨h.goes (by simp [hp]), h.setConn fun hne => absurd rfl hne⟩
  | register hp => exact ⟨h.goes (by simp [hp]), h.receiver⟩
  | spawnSender hp =>
    exact ⟨h.goes (by simp [hp]), h.setConn fun hne => h.receiver _ hne⟩
  | spawnReceiver hp =>
    exact ⟨h.goes (by simp [hp]), h.setConn fun _ => h.handler _ (hp ▸ by simp)⟩
  | select hp => exact ⟨h.goes (by simp [hp]), h.receiver⟩
  | cleanup hp => exact ⟨h.goes (by simp [hp]), h.receiver⟩
  | subscribe => exact ⟨h.handler, h.setConn fun hne => h.receiver _ hne⟩
  | write => exact ⟨h.handler, h.setConn fun hne => h.receiver _ hne⟩
  | writeFails => exact ⟨h.handler, h.setConn fun hne => h.receiver _ hne⟩
  | lag => exact ⟨h.handler, h.setConn fun hne => h.receiver _ hne⟩
  | read _ _ _ hmapping => exact ⟨h.handler, h.setConn fun _ => by simp [hmapping]⟩
  | push hc => exact ⟨h.handler, h.setConn fun _ => h.receiver _ (by simp [hc])⟩
  | close hc => exact ⟨h.handler, h.setConn fun _ => h.receiver _ (by simp [hc])⟩
  | recv | skip | check | look | giveUp | send => exact ⟨h.handler, h.receiver⟩

/-- Whatever the relay has done and whoever reads its channels, a reading task can go on to the end of
its connection, by steps of its own and of the central actor. -/
theorem reader_finishes (hcapacity : 0 < centralCapacity)
    (hrun : (machine mapping capacity centralCapacity).Run tr s)
    (hr : (s.conn c).receiver = .reading ∨ ∃ m, s.Held c m) :
    ∃ (more : List (Machine.Transition Relay Event)) (ms : List Parcel) (s' : Relay),
      (machine mapping capacity centralCapacity).Run (tr ++ more) s' ∧
      (∀ t ∈ more, t.event.OfReader c) ∧ Finished mapping s c ms s' := by
  have hmapped : Mapped mapping s :=
    hrun.invariant' (fun _ hs => hs ▸ Mapped.initial) fun _ _ _ h hs => h.step hs
  have hsome : (mapping c.1).isSome := by
    refine hmapped.receiver c ?_
    rcases hr with hreading | ⟨m, hm⟩
    · simp [hreading]
    · rw [show (s.conn c).receiver = .holding m from hm]
      simp
  obtain ⟨q, hq⟩ := Option.isSome_iff_exists.mp hsome
  obtain ⟨ms, s', hsteps, hfinished⟩ :=
    @reader_ends mapping capacity centralCapacity s c hcapacity q hq hr
  obtain ⟨more, hmore, hof⟩ := hrun.extend hsteps
  exact ⟨more, ms, s', hmore, hof, hfinished⟩

/-- A connection of port 8012 is read while port 8021 has a channel that nobody has subscribed to. -/
theorem reading_run : ∃ tr s, SampleRun tr s ∧ (s.conn (8012, 1)).receiver = .reading ∧
    (s.conn (8012, 1)).unread = [65, newline] ∧ (s.conn (8012, 1)).ending = .eof ∧
    s.outChannels 8021 = some 1 ∧ s.sends = [] ∧ s.inHand = [] ∧ s.queue = [] := by
  have hrun : SampleRun _ _ := .nil rfl
  have hrun := hrun.snoc (e := Event.accept 8021 [] .eof) (.accept rfl)
  have hrun := hrun.snoc (.register (p := 8021) rfl)
  have hrun := hrun.snoc (e := Event.accept 8012 [65, newline] .eof) (.accept rfl)
  have hrun := hrun.snoc (.register (p := 8012) rfl)
  have hrun := hrun.snoc (.spawnSender (p := 8012) rfl)
  have hrun := hrun.snoc (.spawnReceiver (p := 8012) rfl)
  exact ⟨_, _, hrun, rfl, rfl, rfl, rfl, rfl, rfl, rfl⟩

theorem reader_finishes_sample : ∃ (tr : List (Machine.Transition Relay Event)) (s' : Relay),
    SampleRun tr s' ∧ (s'.conn (8012, 1)).receiver = .ended ∧
    (s'.sends.map fun x => x.1.data).flatten = [65, newline] := by
  obtain ⟨tr, s, hrun, hreading, hunread, heof, hchannel, hsends, hhand, hqueue⟩ := reading_run
  obtain ⟨more, ms, s', hrun', -, hfinished⟩ :=
    reader_finishes (Nat.zero_lt_succ _) hrun (Or.inl hreading)
  refine ⟨tr ++ more, s', hrun', hfinished.ended, ?_⟩
  have hdue : ∀ m ∈ ms, due s.outChannels m = [(m, 1)] := by
    intro m hm
    have hport : 8021 = m.toPort := Option.some.inj (hfinished.ports m hm).2
    simp [due, ← hport, hchannel]
  have hsent : s'.sends = ms.map fun m => (m, 1) := by
    rw [hfinished.sends, hsends, hhand, hqueue, Links.held_of_reading hreading]
    simp [List.flatMap_congr hdue, List.map_eq_flatMap]
  have hstream := hfinished.stream
  rw [hfinished.rest.2 heof, hunread, List.append_nil] at hstream
  rw [hsent, List.map_map]
  exact hstream

end Relay
end OmniKV
