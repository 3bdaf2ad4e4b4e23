import OmniKV.Relay

/-!
# Delivery

What reaches the destination connections of the relay.

Messages are neither repeated nor reordered (`delivers_in_order`). They can be lost between the
registration of a connection's channel and the subscription of its writing task
(`none_missed_iff`), and what is left of a stream that ended inside a message is passed on like a
message (`frames_whole_iff`).
-/

namespace OmniKV
namespace Relay

open Frames (newline IsFrame Whole)

variable {mapping : Nat → Option Nat} {capacity centralCapacity : Nat}
  {tr : List (Machine.Transition Relay Event)} {s s' : Relay} {e : Event}

/-! ## Order -/

structure Sound (s : Relay) : Prop where
  ordered : Ordered s
  numbered : Numbered s
  tracked : Tracked s

theorem Sound.initial : Sound (initial mapping) := ⟨.initial, .initial, .initial⟩

theorem Sound.step (h : Sound s) (hs : Step mapping capacity centralCapacity s e s') : Sound s' :=
  ⟨h.ordered.step hs, h.numbered.step hs, h.tracked.step hs⟩

theorem Sound.run (hrun : (machine mapping capacity centralCapacity).Run tr s) : Sound s :=
  hrun.invariant' (fun _ h => by rw [h]; exact .initial) fun _ _ _ h hs => h.step hs

theorem mem_log {c : ConnId} {m : Parcel} (h : m ∈ s.log c) :
    (m, c.2) ∈ s.sends ∧ m.toPort = c.1 := by
  obtain ⟨⟨m', k⟩, hx, rfl⟩ := List.mem_map.mp h
  obtain ⟨hx, heq⟩ := List.mem_filter.mp hx
  have heq := of_decide_eq_true heq
  rw [← heq]
  exact ⟨hx, rfl⟩

theorem Numbered.sends_nodup (h : Numbered s) :
    s.sends.Pairwise fun x y => x.1.id ≠ y.1.id := by
  have hflow := h.nodup
  rw [flow, List.append_assoc] at hflow
  have hsends := (List.pairwise_append.mp hflow).1
  rwa [List.pairwise_map] at hsends

theorem Numbered.log_read (h : Numbered s) {c : ConnId} {m : Parcel} (hm : m ∈ s.log c) :
    m ∈ s.read := by
  refine h.flow_read m ?_
  rw [flow, List.append_assoc]
  exact List.mem_append_left _ (List.mem_map_of_mem (f := Prod.fst) (mem_log hm).1)

theorem Numbered.log_inj (h : Numbered s) {c c' : ConnId} {m m' : Parcel} (hm : m ∈ s.log c)
    (hm' : m' ∈ s.log c') (hid : m.id = m'.id) : c = c' := by
  obtain ⟨hx, hport⟩ := mem_log hm
  obtain ⟨hx', hport'⟩ := mem_log hm'
  have hnodup : (s.sends.map fun x => x.1.id).Nodup := List.pairwise_map.mpr h.sends_nodup
  obtain ⟨rfl, hk⟩ := Prod.mk.inj (List.inj_on_of_nodup_map hnodup hx hx' hid)
  exact Prod.ext (hport.symm.trans hport') hk

theorem Numbered.log_nodup (h : Numbered s) (c : ConnId) :
    (s.log c).Pairwise fun m m' => m.id ≠ m'.id :=
  List.pairwise_map.mpr (h.sends_nodup.filter _)

theorem Step.mem_read (hs : Step mapping capacity centralCapacity s e s') {m : Parcel}
    (hm : m ∈ s'.read) :
    m ∈ s.read ∨ ∃ k, e = .read (m.fromPort, k) m ∧ mapping m.fromPort = some m.toPort := by
  cases hs with
  | read _ _ _ hmapping =>
    rename_i c q _ _ _
    rcases List.mem_append.mp hm with hm | hm
    · exact Or.inl hm
    · obtain rfl := List.mem_singleton.mp hm
      exact Or.inr ⟨c.2, rfl, hmapping⟩
  | _ => exact Or.inl hm

theorem Step.cleaning {p : Nat} (hs : Step mapping capacity centralCapacity s (.cleanup p) s') :
    s.handler p = .cleaning := by
  cases hs
  assumption

/-- What has been read has been read in a step of the run, from a connection of its port. -/
theorem read_of_run (hrun : (machine mapping capacity centralCapacity).Run tr s) :
    ∀ m ∈ s.read, mapping m.fromPort = some m.toPort ∧
      ∃ t ∈ tr, ∃ k, t.event = .read (m.fromPort, k) m := by
  induction hrun with
  | nil h =>
    rw [h]
    intro m hm
    cases hm
  | snoc _ hs ih =>
    intro m hm
    rcases hs.mem_read hm with hm | ⟨k, rfl, hmapping⟩
    · obtain ⟨hmapping, t, ht, hread⟩ := ih m hm
      exact ⟨hmapping, t, List.mem_append_left _ ht, hread⟩
    · exact ⟨hmapping, _, List.mem_append_right _ (List.mem_singleton_self _), k, rfl⟩

/-- Each destination connection gets a block of what the central actor has sent for its port; no
message is written twice; each has been read from a port that is mapped to the port it is written to;
and a handler that cleans up removes the channel of its own connection. -/
theorem delivers_in_order (hrun : (machine mapping capacity centralCapacity).Run tr s) :
    (∀ c, (s.conn c).written <:+: s.sentFor c.1) ∧
    (∀ c, (s.conn c).written.Pairwise fun m m' => m.id ≠ m'.id) ∧
    (∀ c c' m m', m ∈ (s.conn c).written → m' ∈ (s.conn c').written → m.id = m'.id → c = c') ∧
    (∀ c, ∀ m ∈ (s.conn c).written, mapping m.fromPort = some c.1 ∧
      ∃ t ∈ tr, ∃ k, t.event = .read (m.fromPort, k) m) ∧
    ∀ t ∈ tr, ∀ p, t.event = .cleanup p →
      t.before.outChannels p = some (t.before.accepted p) := by
  have h := Sound.run hrun
  have hwritten := fun c => (h.tracked.follows c).written_block
  refine ⟨fun c => (hwritten c).trans (h.ordered.log_block c),
    fun c => (h.numbered.log_nodup c).sublist (hwritten c).sublist, ?_, ?_, ?_⟩
  · intro c c' m m' hm hm'
    exact h.numbered.log_inj ((hwritten c).subset hm) ((hwritten c').subset hm')
  · intro c m hm
    have hlog := (hwritten c).subset hm
    rw [← (mem_log hlog).2]
    exact read_of_run hrun m (h.numbered.log_read hlog)
  · intro t ht p he
    obtain ⟨hsound, hs⟩ := hrun.of_mem (I := Sound) (C := fun _ => True)
      (fun _ h => by rw [h]; exact .initial) (fun _ _ _ h hs _ => h.step hs) (fun _ _ => trivial)
      t ht
    rw [he] at hs
    exact hsound.ordered.own p (by rw [hs.cleaning]; trivial)

/-! ## Messages missed -/

/-- The messages that reach the writing task of a connection: those it has written, then those it
takes next, or still had to take when a write failed or it lagged behind. -/
def reaching (s : Relay) (c : ConnId) : List Parcel :=
  match (s.conn c).sender with
  | .waiting | .spawned => []
  | .subscribed | .ended => (s.conn c).written ++ s.ahead c

/-- Every message sent on the channel of a connection reaches its writing task. -/
def NoneMissed (s : Relay) : Prop := ∀ c : ConnId, c.2 ≠ 0 → s.log c = s.reaching c

/-- The central actor sends on the channel of a connection only once its writing task has
subscribed. -/
def SendsAfterSubscription (t : Machine.Transition Relay Event) : Prop :=
  ∀ m k, t.event = .send m k → k ≠ 0 →
    (t.before.conn (m.toPort, k)).sender ≠ .waiting ∧ (t.before.conn (m.toPort, k)).sender ≠ .spawned

/-- Nothing has been sent before the task subscribed. -/
def Timely (log : List Parcel) (conn : Conn) : Prop :=
  match conn.sender with
  | .waiting | .spawned => log = []
  | .subscribed | .ended => conn.start = 0

theorem log_eq_reaching_iff (h : Tracked s) (c : ConnId) :
    s.log c = s.reaching c ↔ Timely (s.log c) (s.conn c) := by
  unfold reaching Timely
  cases h.follows c with
  | fresh hsender _ _ => rcases hsender with hsender | hsender <;> rw [hsender]
  | subscribed hsender htaken _ | ended hsender htaken =>
    rw [hsender]
    exact htaken.all_iff

theorem noneMissed_iff (h : Tracked s) :
    NoneMissed s ↔ ∀ c : ConnId, c.2 ≠ 0 → Timely (s.log c) (s.conn c) :=
  forall_congr' fun c => imp_congr_right fun _ => log_eq_reaching_iff h c

/-- The channel of a connection that has not been accepted yet. -/
theorem Ordered.log_next (h : Ordered s) (p : Nat) : s.log (p, s.accepted p + 1) = [] := by
  rw [List.eq_nil_iff_forall_not_mem]
  intro m hm
  obtain ⟨hx, hport⟩ := mem_log hm
  have hle := h.sent_le _ hx
  simp only [hport] at hle
  omega

theorem Timely.congr {log : List Parcel} {conn conn' : Conn} (h : Timely log conn)
    (hsender : conn'.sender = conn.sender) (hstart : conn'.start = conn.start) :
    Timely log conn' := by
  unfold Timely at h ⊢
  rwa [hsender, hstart]

theorem timely_update {c : ConnId} {conn : Conn}
    (h : ∀ c : ConnId, c.2 ≠ 0 → Timely (s.log c) (s.conn c))
    (hc : Timely (s.log c) (s.conn c) → Timely (s.log c) conn) :
    ∀ c' : ConnId, c'.2 ≠ 0 → Timely (s.log c') (Function.update s.conn c conn c') := by
  intro c' hne
  by_cases heq : c' = c
  · subst heq
    rw [Function.update_self]
    exact hc (h c' hne)
  · rw [Function.update_of_ne heq]
    exact h c' hne

/-- Only a send can make a writing task miss a message. -/
theorem Step.timely (hsound : Sound s) (h : ∀ c : ConnId, c.2 ≠ 0 → Timely (s.log c) (s.conn c))
    (hs : Step mapping capacity centralCapacity s e s') (he : ∀ m k, e ≠ .send m k) :
    ∀ c : ConnId, c.2 ≠ 0 → Timely (s'.log c) (s'.conn c) := by
  cases hs with
  | accept _ => exact timely_update h fun _ => hsound.ordered.log_next _
  | register _ | select _ _ | cleanup _ | recv _ _ | skip _ _ | check _ _ | look _ _
  | giveUp _ _ => exact h
  | spawnSender hp =>
    have hsender := hsound.tracked.waiting _ (Or.inr hp)
    exact timely_update (s := s) h fun hc => by simpa [Timely, hsender] using hc
  | spawnReceiver _ | read _ _ _ _ | push _ _ | close _ _ _ | write _ _ _ =>
    exact timely_update h fun hc => hc.congr rfl rfl
  | subscribe hsender =>
    exact timely_update h fun hc => by simpa [Timely, hsender] using hc
  | writeFails hsender _ _ _ _ | lag hsender _ =>
    exact timely_update h fun hc => by simpa [Timely, hsender] using hc
  | send _ => exact absurd rfl (he _ _)

/-- A message sent reaches the writing task exactly when the task has subscribed. -/
theorem timely_send (h : ∀ c : ConnId, c.2 ≠ 0 → Timely (s.log c) (s.conn c)) {m : Parcel} {k : Nat}
    {central : Central} :
    (∀ c : ConnId, c.2 ≠ 0 →
      Timely (log { s with central := central, sends := s.sends ++ [(m, k)] } c) (s.conn c)) ↔
    (k ≠ 0 → (s.conn (m.toPort, k)).sender ≠ .waiting ∧
      (s.conn (m.toPort, k)).sender ≠ .spawned) := by
  constructor
  · intro hafter hk
    have hc := hafter (m.toPort, k) hk
    rw [log_send, if_pos rfl] at hc
    cases hsender : (s.conn (m.toPort, k)).sender <;> simp [Timely, hsender] at hc ⊢
  · intro hk c hne
    have hc := h c hne
    rw [log_send]
    by_cases heq : (m.toPort, k) = c
    · subst heq
      obtain ⟨hwaiting, hspawned⟩ := hk hne
      cases hsender : (s.conn (m.toPort, k)).sender <;> simp_all [Timely]
    · simpa [heq] using hc

theorem Step.noneMissed_iff (hsound : Sound s) (h : NoneMissed s)
    (hs : Step mapping capacity centralCapacity s e s') :
    NoneMissed s' ↔ SendsAfterSubscription ⟨s, e, s'⟩ := by
  rw [Relay.noneMissed_iff hsound.tracked] at h
  rw [Relay.noneMissed_iff (hsound.tracked.step hs)]
  by_cases he : ∃ m k, e = .send m k
  · obtain ⟨m, k, rfl⟩ := he
    cases hs with
    | send _ =>
      refine (timely_send h).trans ⟨?_, fun hsends => hsends m k rfl⟩
      intro hk m' k' heq
      cases heq
      exact hk
  · have he : ∀ m k, e ≠ .send m k := by simpa using he
    exact iff_of_true (hs.timely hsound h he) fun m k heq => absurd heq (he m k)

/-- In every run, no message sent on the channel of a connection is ever missed by its writing task
exactly when each is sent after the task has subscribed. -/
theorem none_missed_iff (hrun : (machine mapping capacity centralCapacity).Run tr s) :
    (∀ t ∈ tr, NoneMissed t.after) ↔ ∀ t ∈ tr, SendsAfterSubscription t := by
  refine hrun.forall_iff (H := fun _ => True) (I := fun s => Sound s ∧ NoneMissed s) ?_ ?_ ?_
    fun _ _ => trivial
  · intro s h
    rw [h]
    exact ⟨.initial, fun c _ => rfl⟩
  · intro s e s' hI hs _ hC
    exact ⟨hI.1.step hs, (hs.noneMissed_iff hI.1 hI.2).mpr hC⟩
  · intro s e s' hI hs _
    exact hs.noneMissed_iff hI.1 hI.2

/-! ## Frames -/

/-- The bytes written to a connection. -/
def bytes (conn : Conn) : Bytes := (conn.written.map Parcel.data).flatten ++ conn.torn

/-- Every destination connection has been given whole messages. -/
def FramesWhole (s : Relay) : Prop := ∀ c, Whole newline (bytes (s.conn c))

/-- What is written is not the rest of a stream that ended inside a message, and no write breaks off
inside one. -/
def WritesWhole (t : Machine.Transition Relay Event) : Prop :=
  (∀ c m, t.event = .write c m → m.cut = false) ∧
    ∀ c torn, t.event = .writeFails c torn → torn = []

/-- A message is a line, unless its stream ended inside it. -/
def Formed (m : Parcel) : Prop :=
  if m.cut then m.data ≠ [] ∧ newline ∉ m.data else IsFrame newline m.data

theorem Step.formed (hs : Step mapping capacity centralCapacity s e s')
    (h : ∀ m ∈ s.read, Formed m) : ∀ m ∈ s'.read, Formed m := by
  cases hs with
  | read _ hne _ _ =>
    rename_i c q _ _ _
    intro m hm
    rcases List.mem_append.mp hm with hm | hm
    · exact h m hm
    · rw [List.mem_singleton.mp hm, Formed]
      by_cases hmem : newline ∈ (s.conn c).unread
      · simpa [hmem] using Frames.isFrame_readUntil hmem
      · simpa [hmem, Frames.readUntil_of_notMem hmem] using hne
  | _ => exact h

theorem Formed.whole_iff {m : Parcel} (h : Formed m) {written : Bytes}
    (hw : Whole newline written) : Whole newline (written ++ m.data) ↔ m.cut = false := by
  unfold Formed at h
  split at h
  · rename_i hcut
    simpa [hcut] using Frames.not_whole_append h.1 h.2
  · rename_i hcut
    simpa [hcut] using hw.append h.whole

theorem Formed.torn_iff {m : Parcel} (h : Formed m) {written torn : Bytes}
    (hw : Whole newline written) (hbegins : torn <+: m.data) (hne : torn ≠ m.data) :
    Whole newline (written ++ torn) ↔ torn = [] := by
  have hsep : newline ∉ torn := by
    unfold Formed at h
    split at h
    · exact fun hmem => h.2 (hbegins.subset hmem)
    · exact h.notMem_of_prefix hbegins hne
  constructor
  · intro hwhole
    by_contra htorn
    exact Frames.not_whole_append htorn hsep hwhole
  · rintro rfl
    rwa [List.append_nil]

theorem framesWhole_update (h : FramesWhole s) {c : ConnId} {conn : Conn} :
    (∀ c', Whole newline (bytes (Function.update s.conn c conn c'))) ↔
      Whole newline (bytes conn) := by
  constructor
  · intro hall
    simpa using hall c
  · intro hc c'
    by_cases heq : c' = c
    · rwa [heq, Function.update_self]
    · rw [Function.update_of_ne heq]
      exact h c'

theorem Step.framesWhole_iff (hsound : Sound s) (hformed : ∀ m ∈ s.read, Formed m)
    (h : FramesWhole s) (hs : Step mapping capacity centralCapacity s e s') :
    FramesWhole s' ↔ WritesWhole ⟨s, e, s'⟩ := by
  cases hs with
  | write hsender hm _ =>
    rename_i c m _
    have htorn := ((hsound.tracked.follows c).of_subscribed hsender).2
    have hread := hsound.numbered.log_read (List.mem_of_getElem? hm)
    have hbytes : bytes { s.conn c with written := (s.conn c).written ++ [m] } =
        bytes (s.conn c) ++ m.data := by
      simp [bytes, htorn]
    refine (framesWhole_update h).trans ?_
    rw [hbytes, (hformed m hread).whole_iff (h c)]
    constructor
    · intro hcut
      refine ⟨fun c' m' heq => ?_, by simp⟩
      cases heq
      exact hcut
    · intro hwrites
      exact hwrites.1 c m rfl
  | writeFails hsender hm _ hbegins hne =>
    rename_i c m torn _
    have htorn := ((hsound.tracked.follows c).of_subscribed hsender).2
    have hread := hsound.numbered.log_read (List.mem_of_getElem? hm)
    have hbytes : bytes { s.conn c with sender := .ended, torn := torn } =
        bytes (s.conn c) ++ torn := by
      simp [bytes, htorn]
    refine (framesWhole_update h).trans ?_
    rw [hbytes, (hformed m hread).torn_iff (h c) hbegins hne]
    constructor
    · intro hnil
      refine ⟨by simp, fun c' torn' heq => ?_⟩
      cases heq
      exact hnil
    · intro hwrites
      exact hwrites.2 c torn rfl
  | accept _ =>
    exact iff_of_true ((framesWhole_update h).mpr .nil) ⟨by simp, by simp⟩
  | spawnSender _ | spawnReceiver _ | subscribe _ | lag _ _ | read _ _ _ _ | push _ _
  | close _ _ _ =>
    exact iff_of_true ((framesWhole_update h).mpr (h _)) ⟨by simp, by simp⟩
  | register _ | select _ _ | cleanup _ | recv _ _ | skip _ _ | check _ _ | look _ _
  | giveUp _ _ | send _ =>
    exact iff_of_true h ⟨by simp, by simp⟩

/-- In every run, all destination connections are always given whole messages exactly when no rest of a
stream that ended inside a message is written, and no write breaks off inside a message. -/
theorem frames_whole_iff (hrun : (machine mapping capacity centralCapacity).Run tr s) :
    (∀ t ∈ tr, FramesWhole t.after) ↔ ∀ t ∈ tr, WritesWhole t := by
  refine hrun.forall_iff (H := fun _ => True)
    (I := fun s => Sound s ∧ (∀ m ∈ s.read, Formed m) ∧ FramesWhole s) ?_ ?_ ?_ fun _ _ => trivial
  · intro s h
    rw [h]
    exact ⟨.initial, by simp [Relay.initial], fun c => .nil⟩
  · rintro s e s' ⟨hsound, hformed, h⟩ hs - hC
    exact ⟨hsound.step hs, hs.formed hformed, (hs.framesWhole_iff hsound hformed h).mpr hC⟩
  · rintro s e s' ⟨hsound, hformed, h⟩ hs -
    exact hs.framesWhole_iff hsound hformed h

/-! ## Runs of one link -/

/-- The ports of the link between nodes 1 and 2. -/
def sampleMapping (p : Nat) : Option Nat :=
  if p = 8012 then some 8021 else if p = 8021 then some 8012 else none

abbrev SampleRun := Machine.Run (machine sampleMapping 10000 10000)

/-- A message from port 8012 is written to the connection on port 8021. -/
theorem relayed_run : ∃ tr s, SampleRun tr s ∧
    (s.conn (8021, 1)).written.map Parcel.data = [[65, 10]] ∧
    (∀ t ∈ tr, SendsAfterSubscription t) ∧ ∀ t ∈ tr, WritesWhole t := by
  have hrun : SampleRun _ _ := .nil rfl
  have hrun := hrun.snoc (e := Event.accept 8021 [] .eof) (.accept rfl)
  have hrun := hrun.snoc (.register (p := 8021) rfl)
  have hrun := hrun.snoc (.spawnSender (p := 8021) rfl)
  have hrun := hrun.snoc (.subscribe (c := (8021, 1)) rfl)
  have hrun := hrun.snoc (e := Event.accept 8012 [65, 10] .eof) (.accept rfl)
  have hrun := hrun.snoc (.register (p := 8012) rfl)
  have hrun := hrun.snoc (.spawnSender (p := 8012) rfl)
  have hrun := hrun.snoc (.spawnReceiver (p := 8012) rfl)
  have hrun := hrun.snoc (.read (c := (8012, 1)) (q := 8021) rfl (List.cons_ne_nil _ _)
    (Or.inr rfl) rfl)
  have hrun := hrun.snoc (.push (c := (8012, 1)) rfl (Nat.zero_lt_succ _))
  have hrun := hrun.snoc (.recv rfl rfl)
  have hrun := hrun.snoc (.check rfl rfl)
  have hrun := hrun.snoc (.look (k := 1) rfl rfl)
  have hrun := hrun.snoc (.send rfl)
  have hrun := hrun.snoc (.write (c := (8021, 1)) rfl rfl (by decide))
  refine ⟨_, _, hrun, rfl, ?_, ?_⟩ <;>
    simp only [List.nil_append, List.cons_append, List.mem_cons, List.not_mem_nil, or_false,
      forall_eq_or_imp, forall_eq]
  · simp only [SendsAfterSubscription, reduceCtorEq, false_implies, implies_true, true_and, and_true,
      Event.send.injEq, and_imp]
    rintro m k rfl rfl -
    decide
  · simp only [WritesWhole, reduceCtorEq, false_implies, implies_true, true_and, and_true,
      Event.write.injEq, and_imp]
    rintro c m rfl rfl
    rfl

theorem delivers_in_order_sample : ∃ tr s, SampleRun tr s ∧
    (s.conn (8021, 1)).written.map Parcel.data = [[65, 10]] ∧
    (s.conn (8021, 1)).written <:+: s.sentFor 8021 ∧
    ∀ m ∈ (s.conn (8021, 1)).written, sampleMapping m.fromPort = some 8021 := by
  obtain ⟨tr, s, hrun, hwritten, -, -⟩ := relayed_run
  obtain ⟨hblock, -, -, hports, -⟩ := delivers_in_order hrun
  exact ⟨tr, s, hrun, hwritten, hblock (8021, 1), fun m hm => (hports (8021, 1) m hm).1⟩

theorem none_missed_sample : ∃ tr s, SampleRun tr s ∧
    (s.conn (8021, 1)).written.map Parcel.data = [[65, 10]] ∧ ∀ t ∈ tr, NoneMissed t.after := by
  obtain ⟨tr, s, hrun, hwritten, hsends, -⟩ := relayed_run
  exact ⟨tr, s, hrun, hwritten, (none_missed_iff hrun).mpr hsends⟩

theorem frames_whole_sample : ∃ tr s, SampleRun tr s ∧
    (s.conn (8021, 1)).written.map Parcel.data = [[65, 10]] ∧ ∀ t ∈ tr, FramesWhole t.after := by
  obtain ⟨tr, s, hrun, hwritten, -, hwhole⟩ := relayed_run
  exact ⟨tr, s, hrun, hwritten, (frames_whole_iff hrun).mpr hwhole⟩

/-- A message is sent on the channel of a connection before its writing task is spawned. Once the task
has subscribed, the message is neither written nor ahead of it. -/
theorem message_missed : ∃ tr s, SampleRun tr s ∧ (s.conn (8021, 1)).sender = .subscribed ∧
    (s.log (8021, 1)).map Parcel.data = [[65, 10]] ∧ s.reaching (8021, 1) = [] ∧
    ¬∀ t ∈ tr, NoneMissed t.after := by
  have hrun : SampleRun _ _ := .nil rfl
  have hrun := hrun.snoc (e := Event.accept 8021 [] .eof) (.accept rfl)
  have hrun := hrun.snoc (.register (p := 8021) rfl)
  have hrun := hrun.snoc (e := Event.accept 8012 [65, 10] .eof) (.accept rfl)
  have hrun := hrun.snoc (.register (p := 8012) rfl)
  have hrun := hrun.snoc (.spawnSender (p := 8012) rfl)
  have hrun := hrun.snoc (.spawnReceiver (p := 8012) rfl)
  have hrun := hrun.snoc (.read (c := (8012, 1)) (q := 8021) rfl (List.cons_ne_nil _ _)
    (Or.inr rfl) rfl)
  have hrun := hrun.snoc (.push (c := (8012, 1)) rfl (Nat.zero_lt_succ _))
  have hrun := hrun.snoc (.recv rfl rfl)
  have hrun := hrun.snoc (.check rfl rfl)
  have hrun := hrun.snoc (.look (k := 1) rfl rfl)
  have hrun := hrun.snoc (.send rfl)
  have hrun := hrun.snoc (.spawnSender (p := 8021) rfl)
  have hrun := hrun.snoc (.subscribe (c := (8021, 1)) rfl)
  refine ⟨_, _, hrun, rfl, rfl, rfl, ?_⟩
  intro hall
  have hmissed := hall _ (List.mem_of_getElem? (i := 11) rfl) (8021, 1) Nat.one_ne_zero
  cases hmissed

/-- A connection on port 8012 ends inside a message; the message of the next one is written behind what
it left. -/
theorem fragment_glued : ∃ tr s, SampleRun tr s ∧ bytes (s.conn (8021, 1)) = [65, 66, 10] ∧
    (s.conn (8021, 1)).written.map Parcel.data = [[65], [66, 10]] ∧
    ¬∀ t ∈ tr, FramesWhole t.after := by
  have hrun : SampleRun _ _ := .nil rfl
  have hrun := hrun.snoc (e := Event.accept 8021 [] .eof) (.accept rfl)
  have hrun := hrun.snoc (.register (p := 8021) rfl)
  have hrun := hrun.snoc (.spawnSender (p := 8021) rfl)
  have hrun := hrun.snoc (.subscribe (c := (8021, 1)) rfl)
  have hrun := hrun.snoc (e := Event.accept 8012 [65] .eof) (.accept rfl)
  have hrun := hrun.snoc (.register (p := 8012) rfl)
  have hrun := hrun.snoc (.spawnSender (p := 8012) rfl)
  have hrun := hrun.snoc (.spawnReceiver (p := 8012) rfl)
  have hrun := hrun.snoc (.read (c := (8012, 1)) (q := 8021) rfl (List.cons_ne_nil _ _)
    (Or.inr rfl) rfl)
  have hrun := hrun.snoc (.push (c := (8012, 1)) rfl (Nat.zero_lt_succ _))
  have hrun := hrun.snoc (.recv rfl rfl)
  have hrun := hrun.snoc (.check rfl rfl)
  have hrun := hrun.snoc (.look (k := 1) rfl rfl)
  have hrun := hrun.snoc (.send rfl)
  have hrun := hrun.snoc (.write (c := (8021, 1)) rfl rfl (by decide))
  have hrun := hrun.snoc (.close (c := (8012, 1)) rfl (by decide) (Or.inl rfl))
  have hrun := hrun.snoc (.select (p := 8012) rfl (Or.inl rfl))
  have hrun := hrun.snoc (.cleanup (p := 8012) rfl)
  have hrun := hrun.snoc (e := Event.accept 8012 [66, 10] .eof) (.accept rfl)
  have hrun := hrun.snoc (.register (p := 8012) rfl)
  have hrun := hrun.snoc (.spawnSender (p := 8012) rfl)
  have hrun := hrun.snoc (.spawnReceiver (p := 8012) rfl)
  have hrun := hrun.snoc (.read (c := (8012, 2)) (q := 8021) rfl (List.cons_ne_nil _ _)
    (Or.inr rfl) rfl)
  have hrun := hrun.snoc (.push (c := (8012, 2)) rfl (Nat.zero_lt_succ _))
  have hrun := hrun.snoc (.recv rfl rfl)
  have hrun := hrun.snoc (.check rfl rfl)
  have hrun := hrun.snoc (.look (k := 1) rfl rfl)
  have hrun := hrun.snoc (.send rfl)
  have hrun := hrun.snoc (.write (c := (8021, 1)) rfl rfl (by decide))
  refine ⟨_, _, hrun, by decide, by decide, ?_⟩
  intro hall
  have hwhole := hall _ (List.mem_of_getElem? (i := 14) rfl) (8021, 1)
  have hlast := hwhole.getLast? (List.cons_ne_nil _ _)
  revert hlast
  decide

end Relay
end OmniKV
