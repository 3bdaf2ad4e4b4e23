import OmniKV.Delivery
import OmniKV.Lib.Conveyance
import OmniKV.Peers

/-!
# Links

From the messages that nodes write to their connections to those that reach the nodes at the other end.

The relay knows bytes only. Where it is given whole messages, it conveys them: what a destination
connection gets are messages written to connections of the port mapped to it, each at most once, and
those of one connection in order (`relay_conveys`).
-/

namespace OmniKV
namespace Links

open Frames (newline readUntil Codec)
open Relay (Event Step machine)

variable {μ : Type} {codec : Codec μ UInt8} {mapping : Nat → Option Nat} {capacity centralCapacity : Nat}
  {tr : List (Machine.Transition Relay Relay.Event)} {s s' : Relay} {e : Relay.Event}

/-! ## Reads -/

def readOf : Relay.Event → Option (ConnId × Parcel)
  | .read c m => some (c, m)
  | _ => none

/-- The messages read in a run, each with its connection, oldest first. -/
def reads (tr : List (Machine.Transition Relay Relay.Event)) : List (ConnId × Parcel) :=
  tr.filterMap fun t => readOf t.event

def readFrom (tr : List (Machine.Transition Relay Relay.Event)) (c : ConnId) : List Parcel :=
  ((reads tr).filter fun x => x.1 = c).map Prod.snd

/-- The message a connection's reading task waits to push. -/
def held (s : Relay) (c : ConnId) : List Parcel :=
  match (s.conn c).receiver with
  | .holding m => [m]
  | _ => []

theorem reads_snoc (t : Machine.Transition Relay Relay.Event) :
    reads (tr ++ [t]) = reads tr ++ (readOf t.event).toList := by
  rw [reads, List.filterMap_append]
  cases h : readOf t.event <;> simp [reads, h]

theorem mem_readFrom {c : ConnId} {m : Parcel} : m ∈ readFrom tr c ↔ (c, m) ∈ reads tr := by
  simp [readFrom]

theorem held_of_holding {c : ConnId} {m : Parcel} (h : (s.conn c).receiver = .holding m) :
    held s c = [m] := by
  rw [held, h]

theorem held_of_reading {c : ConnId} (h : (s.conn c).receiver = .reading) : held s c = [] := by
  rw [held, h]

/-- The messages of each connection go through the actor in the order they were read. -/
structure Traced (tr : List (Machine.Transition Relay Relay.Event)) (s : Relay) : Prop where
  read : s.read = (reads tr).map Prod.snd
  sorted : (reads tr).Pairwise fun x y => x.2.id < y.2.id
  fifo : ∀ c, ((s.flow.filter fun m => m ∈ readFrom tr c) ++ held s c).Sublist (readFrom tr c)
  fresh : ∀ p k, s.accepted p < k → readFrom tr (p, k) = []

theorem Traced.initial : Traced [] (Relay.initial mapping) where
  read := rfl
  sorted := .nil
  fifo c := by simp [Relay.initial, Relay.flow, Central.parcels, held, Conn.opened]
  fresh _ _ _ := rfl

/-- A step that reads nothing and pushes nothing. -/
theorem Traced.still (h : Traced tr s) (he : readOf e = none) (hread : s'.read = s.read)
    (hflow : s'.flow.Sublist s.flow) (hheld : ∀ c, (held s' c).Sublist (held s c))
    (haccepted : ∀ p, s.accepted p ≤ s'.accepted p) : Traced (tr ++ [⟨s, e, s'⟩]) s' := by
  have hreads : reads (tr ++ [⟨s, e, s'⟩]) = reads tr := by simp [reads_snoc, he]
  have hfrom : ∀ c, readFrom (tr ++ [⟨s, e, s'⟩]) c = readFrom tr c := fun c => by
    rw [readFrom, hreads, readFrom]
  refine ⟨by rw [hread, hreads, h.read], by rw [hreads]; exact h.sorted, fun c => ?_,
    fun p k hk => ?_⟩
  · rw [hfrom]
    exact ((hflow.filter _).append (hheld c)).trans (h.fifo c)
  · rw [hfrom]
    exact h.fresh p k ((haccepted p).trans_lt hk)

theorem Traced.read_step (h : Traced tr s) (hnumbered : Relay.Numbered s)
    (hopened : ∀ p k, s.accepted p < k → (s.conn (p, k)).receiver = .waiting) {c : ConnId}
    {m : Parcel} {unread : Bytes} (hc : (s.conn c).receiver = .reading) (hid : m.id = s.read.length)
    (hconn : s'.conn =
      Function.update s.conn c { s.conn c with unread := unread, receiver := .holding m })
    (hread : s'.read = s.read ++ [m]) (hflow : s'.flow = s.flow)
    (haccepted : s'.accepted = s.accepted) : Traced (tr ++ [⟨s, .read c m, s'⟩]) s' := by
  have hreads : reads (tr ++ [⟨s, .read c m, s'⟩]) = reads tr ++ [(c, m)] := by
    simp [reads_snoc, readOf]
  have hself : readFrom (tr ++ [⟨s, .read c m, s'⟩]) c = readFrom tr c ++ [m] := by
    simp [readFrom, hreads]
  have hother : ∀ c', c' ≠ c → readFrom (tr ++ [⟨s, .read c m, s'⟩]) c' = readFrom tr c' := by
    intro c' hne
    simp [readFrom, hreads, hne.symm]
  have hlt : ∀ x ∈ reads tr, x.2.id < m.id := by
    intro x hx
    rw [hid]
    refine hnumbered.id_lt x.2 ?_
    rw [h.read]
    exact List.mem_map_of_mem hx
  refine ⟨?_, ?_, fun c' => ?_, fun p k hk => ?_⟩
  · rw [hread, hreads, List.map_append, ← h.read]
    rfl
  · rw [hreads]
    refine List.pairwise_append.mpr ⟨h.sorted, List.pairwise_singleton _ _, ?_⟩
    intro x hx y hy
    rw [List.mem_singleton.mp hy]
    exact hlt x hx
  · have hfifo := h.fifo c'
    by_cases hc' : c' = c
    · subst hc'
      -- the new message is not in the flow yet
      have hfilter : s'.flow.filter (fun m' => m' ∈ readFrom (tr ++ [⟨s, .read c' m, s'⟩]) c') =
          s.flow.filter fun m' => m' ∈ readFrom tr c' := by
        rw [hflow]
        refine List.filter_congr fun m' hm' => ?_
        have hne : m' ≠ m := by
          rintro rfl
          exact absurd (hnumbered.id_lt m' (hnumbered.flow_read m' hm')) (by omega)
        simp [hself, hne]
      have hheld : held s' c' = [m] := held_of_holding (by simp [hconn])
      rw [hfilter, hheld, hself]
      rw [held_of_reading hc, List.append_nil] at hfifo
      exact hfifo.append (List.Sublist.refl _)
    · have hheld : held s' c' = held s c' := by simp [held, hconn, hc']
      rw [hother c' hc', hheld, hflow]
      exact hfifo
  · have hne : (p, k) ≠ c := by
      rintro rfl
      have hwaiting := hopened p k (by rwa [haccepted] at hk)
      rw [hc] at hwaiting
      cases hwaiting
    rw [hother _ hne]
    exact h.fresh p k (by rwa [haccepted] at hk)

/-- A message has been read from one connection. -/
theorem Traced.source_unique (h : Traced tr s) {c c' : ConnId} {m m' : Parcel}
    (hm : m ∈ readFrom tr c) (hm' : m' ∈ readFrom tr c') (hid : m.id = m'.id) :
    c = c' ∧ m = m' := by
  have hnodup : ((reads tr).map fun x => x.2.id).Nodup :=
    List.pairwise_map.mpr (h.sorted.imp fun hlt heq => absurd heq (Nat.ne_of_lt hlt))
  exact Prod.mk.inj (List.inj_on_of_nodup_map hnodup (mem_readFrom.mp hm) (mem_readFrom.mp hm') hid)

theorem Traced.push_step (h : Traced tr s) {c : ConnId} {m : Parcel}
    (hc : (s.conn c).receiver = .holding m)
    (hconn : s'.conn = Function.update s.conn c { s.conn c with receiver := .reading })
    (hread : s'.read = s.read) (hflow : s'.flow = s.flow ++ [m])
    (haccepted : s'.accepted = s.accepted) : Traced (tr ++ [⟨s, .push c m, s'⟩]) s' := by
  have hreads : reads (tr ++ [⟨s, .push c m, s'⟩]) = reads tr := by simp [reads_snoc, readOf]
  have hfrom : ∀ c', readFrom (tr ++ [⟨s, .push c m, s'⟩]) c' = readFrom tr c' := fun c' => by
    rw [readFrom, hreads, readFrom]
  have hmem : m ∈ readFrom tr c := (h.fifo c).subset (by simp [held_of_holding hc])
  refine ⟨by rw [hread, hreads, ← h.read], by rw [hreads]; exact h.sorted, fun c' => ?_,
    fun p k hk => ?_⟩
  · have hfifo := h.fifo c'
    rw [hfrom, hflow, List.filter_append]
    by_cases hc' : c' = c
    · subst hc'
      have hheld : held s' c' = [] := held_of_reading (by simp [hconn])
      rw [hheld, List.append_nil]
      rw [held_of_holding hc] at hfifo
      simpa [hmem] using hfifo
    · have hheld : held s' c' = held s c' := by simp [held, hconn, hc']
      have hnot : m ∉ readFrom tr c' := fun hm' => hc' (h.source_unique hm' hmem rfl).1
      simpa [hheld, hnot] using hfifo
  · rw [hfrom]
    exact h.fresh p k (by rwa [haccepted] at hk)

/-- Only accepted connections are read. -/
def Opened (s : Relay) : Prop := ∀ p k, s.accepted p < k → (s.conn (p, k)).receiver = .waiting

theorem Opened.update (h : Opened s) {c : ConnId} {conn : Conn}
    (hc : (s.conn c).receiver = .waiting → conn.receiver = .waiting) {p k : Nat}
    (hk : s.accepted p < k) : (Function.update s.conn c conn (p, k)).receiver = .waiting := by
  by_cases heq : (p, k) = c
  · subst heq
    rw [Function.update_self]
    exact hc (h p k hk)
  · rw [Function.update_of_ne heq]
    exact h p k hk

theorem Opened.step (h : Opened s) (hs : Step mapping capacity centralCapacity s e s') :
    Opened s' := by
  intro p k hk
  cases hs with
  | accept hp =>
    rename_i q stream ending
    have hle : s.accepted p ≤ Function.update s.accepted q (s.accepted q + 1) p := by
      by_cases hpq : p = q
      · subst hpq
        simp
      · simp [hpq]
    have hopened : (s.conn (q, s.accepted q + 1)).receiver = .waiting →
        (Conn.opened stream ending).receiver = .waiting := fun _ => rfl
    exact h.update hopened (hle.trans_lt hk)
  | spawnReceiver hp =>
    rename_i q
    have hne : (p, k) ≠ s.current q := by
      intro heq
      obtain ⟨rfl, rfl⟩ := Prod.mk.inj heq
      exact absurd hk (Nat.lt_irrefl _)
    show (Function.update s.conn (s.current q) _ (p, k)).receiver = .waiting
    rw [Function.update_of_ne hne]
    exact h p k hk
  | spawnSender _ | subscribe _ | write _ _ _ | writeFails _ _ _ _ _ | lag _ _ =>
    refine h.update ?_ hk
    exact id
  | read hc _ _ _ | close hc _ _ | push hc _ => exact h.update (by simp [hc]) hk
  | register _ | select _ _ | cleanup _ | recv _ _ | skip _ _ | check _ _ | look _ _ | giveUp _ _
  | send _ => exact h p k hk

theorem held_update {c : ConnId} {conn : Conn} {s' : Relay}
    (hconn : s'.conn = Function.update s.conn c conn)
    (hc : conn.receiver = (s.conn c).receiver ∨ ∀ m, conn.receiver ≠ .holding m) (c' : ConnId) :
    (held s' c').Sublist (held s c') := by
  by_cases hc' : c' = c
  · subst hc'
    rcases hc with hc | hc
    · simp [held, hconn, hc]
    · have hnil : held s' c' = [] := by
        rw [held, hconn, Function.update_self]
        cases hr : conn.receiver with
        | holding m => exact absurd hr (hc m)
        | _ => rfl
      rw [hnil]
      exact List.nil_sublist _
  · simp [held, hconn, hc']

theorem Traced.step (h : Traced tr s) (hnumbered : Relay.Numbered s) (hopened : Opened s)
    (hs : Step mapping capacity centralCapacity s e s') : Traced (tr ++ [⟨s, e, s'⟩]) s' := by
  cases hs with
  | read hc _ _ _ => exact h.read_step hnumbered hopened hc rfl rfl rfl rfl rfl
  | push hc _ => exact h.push_step hc rfl rfl (List.append_assoc _ _ _).symm rfl
  | accept _ =>
    rename_i p stream ending _
    refine h.still rfl rfl (List.Sublist.refl _) (held_update rfl (Or.inr (by simp [Conn.opened])))
      fun q => ?_
    show _ ≤ Function.update s.accepted p (s.accepted p + 1) q
    by_cases hq : q = p
    · subst hq
      simp
    · simp [hq]
  | register _ | select _ _ | cleanup _ =>
    exact h.still rfl rfl (List.Sublist.refl _) (fun _ => List.Sublist.refl _) fun _ => le_rfl
  | spawnSender _ | subscribe _ | write _ _ _ | writeFails _ _ _ _ _ | lag _ _ =>
    exact h.still rfl rfl (List.Sublist.refl _) (held_update rfl (Or.inl rfl)) fun _ => le_rfl
  | spawnReceiver _ | close _ _ _ =>
    exact h.still rfl rfl (List.Sublist.refl _) (held_update rfl (Or.inr (by simp))) fun _ => le_rfl
  | recv hidle hqueue =>
    refine h.still rfl rfl (Relay.flow_central _ _ ?_) (fun _ => List.Sublist.refl _) fun _ => le_rfl
    rw [hidle, hqueue]
    exact List.Sublist.refl _
  | skip hc _ | giveUp hc _ =>
    refine h.still rfl rfl (Relay.flow_central _ s.queue ?_) (fun _ => List.Sublist.refl _)
      fun _ => le_rfl
    rw [hc]
    exact List.sublist_cons_self _ _
  | check hc _ | look hc _ =>
    refine h.still rfl rfl (Relay.flow_central _ s.queue ?_) (fun _ => List.Sublist.refl _)
      fun _ => le_rfl
    rw [hc]
    exact List.Sublist.refl _
  | send hc =>
    refine h.still rfl rfl ?_ (fun _ => List.Sublist.refl _) fun _ => le_rfl
    simp [Relay.flow, hc, Central.parcels]

theorem Traced.run (hrun : (machine mapping capacity centralCapacity).Run tr s) :
    Traced tr s ∧ Opened s := by
  induction hrun with
  | nil h =>
    rw [h]
    exact ⟨.initial, fun _ _ _ => rfl⟩
  | snoc hrun hs ih => exact ⟨ih.1.step (Relay.Sound.run hrun).numbered ih.2 hs, ih.2.step hs⟩

/-! ## Lines -/

/-- Each accepted connection brings the beginning of the stream of the messages written to it. -/
def Streams (codec : Codec μ UInt8) (tr : List (Machine.Transition Relay Relay.Event))
    (sent : ConnId → List μ) : Prop :=
  ∀ t ∈ tr, ∀ p stream ending, t.event = .accept p stream ending →
    stream <+: codec.lines newline (sent (p, t.before.accepted p + 1))

/-- The messages read in full. -/
def wholeFrom (tr : List (Machine.Transition Relay Relay.Event)) (c : ConnId) : List Parcel :=
  (readFrom tr c).filter fun m => !m.cut

/-- The messages read in full from a connection are the first ones sent on it. -/
def Lined (codec : Codec μ UInt8) (sent : ConnId → List μ)
    (tr : List (Machine.Transition Relay Relay.Event)) (s : Relay) : Prop :=
  ∀ c, ∃ ms coming, sent c = ms ++ coming ∧
    (wholeFrom tr c).map Parcel.data = ms.map (fun x => codec.encode x ++ [newline]) ∧
    (s.conn c).unread <+: codec.lines newline coming

variable {sent : ConnId → List μ}

theorem wholeFrom_snoc (t : Machine.Transition Relay Relay.Event) (c : ConnId) :
    wholeFrom (tr ++ [t]) c = wholeFrom tr c ++
      (((readOf t.event).toList.filter fun x => x.1 = c).map Prod.snd).filter fun m => !m.cut := by
  rw [wholeFrom, readFrom, reads_snoc, List.filter_append, List.map_append, List.filter_append]
  rfl

theorem Lined.still (h : Lined codec sent tr s) (he : readOf e = none)
    (hunread : ∀ c, (s'.conn c).unread = (s.conn c).unread) :
    Lined codec sent (tr ++ [⟨s, e, s'⟩]) s' := by
  intro c
  obtain ⟨ms, coming, hsent, hdata, hcoming⟩ := h c
  refine ⟨ms, coming, hsent, ?_, by rwa [hunread]⟩
  simpa [wholeFrom_snoc, he] using hdata

theorem Lined.accept (h : Lined codec sent tr s) (htraced : Traced tr s) {p : Nat} {stream : Bytes}
    {ending : Frames.Ending} (hstream : stream <+: codec.lines newline (sent (p, s.accepted p + 1)))
    (hconn : s'.conn = Function.update s.conn (p, s.accepted p + 1) (Conn.opened stream ending)) :
    Lined codec sent (tr ++ [⟨s, .accept p stream ending, s'⟩]) s' := by
  intro c
  have hwhole : wholeFrom (tr ++ [⟨s, .accept p stream ending, s'⟩]) c = wholeFrom tr c := by
    simp [wholeFrom_snoc, readOf]
  rw [hwhole, hconn]
  by_cases hc : c = (p, s.accepted p + 1)
  · subst hc
    refine ⟨[], sent (p, s.accepted p + 1), rfl, ?_, ?_⟩
    · rw [wholeFrom, htraced.fresh p _ (Nat.lt_succ_self _)]
      rfl
    · rw [Function.update_self]
      exact hstream
  · rw [Function.update_of_ne hc]
    exact h c

theorem Lined.read (laws : codec.Lawful newline) (h : Lined codec sent tr s) {c : ConnId}
    {m : Parcel} {conn : Conn} (hdata : m.data = (readUntil newline (s.conn c).unread).1)
    (hcut : m.cut = decide (newline ∉ (s.conn c).unread))
    (hunread : conn.unread = (readUntil newline (s.conn c).unread).2)
    (hconn : s'.conn = Function.update s.conn c conn) :
    Lined codec sent (tr ++ [⟨s, .read c m, s'⟩]) s' := by
  intro c'
  obtain ⟨ms, coming, hsent, hwhole, hcoming⟩ := h c'
  by_cases hc : c' = c
  · subst hc
    rw [hconn, Function.update_self, hunread]
    by_cases hsep : newline ∈ (s.conn c').unread
    · obtain ⟨x, rest, rfl, hline, hrest, -⟩ := laws.readUntil_lines hcoming hsep
      refine ⟨ms ++ [x], rest, by rw [hsent, List.append_assoc, List.singleton_append], ?_, hrest⟩
      simp [wholeFrom_snoc, readOf, hcut, hsep, hwhole, hdata, hline]
    · -- the rest of the stream is read, and is no line
      rw [Frames.readUntil_of_notMem hsep]
      refine ⟨ms, coming, hsent, ?_, List.nil_prefix⟩
      simpa [wholeFrom_snoc, readOf, hcut, hsep] using hwhole
  · rw [hconn, Function.update_of_ne hc]
    refine ⟨ms, coming, hsent, ?_, hcoming⟩
    simpa [wholeFrom_snoc, readOf, Ne.symm hc] using hwhole

theorem unread_update {c : ConnId} {conn : Conn} (hconn : s'.conn = Function.update s.conn c conn)
    (hc : conn.unread = (s.conn c).unread) (c' : ConnId) :
    (s'.conn c').unread = (s.conn c').unread := by
  by_cases heq : c' = c
  · subst heq
    rw [hconn, Function.update_self, hc]
  · rw [hconn, Function.update_of_ne heq]

theorem Lined.step (laws : codec.Lawful newline) (h : Lined codec sent tr s)
    (htraced : Traced tr s) (hs : Step mapping capacity centralCapacity s e s')
    (hstream : ∀ p stream ending, e = .accept p stream ending →
      stream <+: codec.lines newline (sent (p, s.accepted p + 1))) :
    Lined codec sent (tr ++ [⟨s, e, s'⟩]) s' := by
  cases hs with
  | accept _ => exact h.accept htraced (hstream _ _ _ rfl) rfl
  | read _ _ _ _ => exact h.read laws rfl rfl rfl rfl
  | spawnSender _ | spawnReceiver _ | subscribe _ | write _ _ _ | writeFails _ _ _ _ _ | lag _ _
  | push _ _ | close _ _ _ =>
    refine h.still rfl (unread_update rfl ?_)
    rfl
  | register _ | select _ _ | cleanup _ | recv _ _ | skip _ _ | check _ _ | look _ _ | giveUp _ _
  | send _ => exact h.still rfl fun _ => rfl

theorem Lined.run (laws : codec.Lawful newline)
    (hrun : (machine mapping capacity centralCapacity).Run tr s) (hstreams : Streams codec tr sent) :
    Lined codec sent tr s := by
  induction hrun with
  | nil h =>
    rw [h]
    exact fun c => ⟨[], sent c, rfl, rfl, List.nil_prefix⟩
  | snoc hrun hs ih =>
    have hpre := ih fun t ht => hstreams t (List.mem_append_left _ ht)
    refine hpre.step laws (Traced.run hrun).1 hs fun p stream ending he => ?_
    exact hstreams _ (List.mem_append_right _ (List.mem_singleton_self _)) p stream ending he

/-- A message read in full is a line, at its place among those sent. -/
theorem Lined.place (h : Lined codec sent tr s) {c : ConnId} {m : Parcel}
    (hm : m ∈ wholeFrom tr c) : ∃ (k : Nat) (x : μ), (wholeFrom tr c)[k]? = some m ∧
      (sent c)[k]? = some x ∧ m.data = codec.encode x ++ [newline] := by
  obtain ⟨ms, coming, hsent, hdata, -⟩ := h c
  obtain ⟨k, hk, rfl⟩ := List.getElem_of_mem hm
  have hlen : (wholeFrom tr c).length = ms.length := by simpa using congrArg List.length hdata
  have hk' : k < ms.length := hlen ▸ hk
  refine ⟨k, ms[k], List.getElem?_eq_getElem hk, ?_, ?_⟩
  · rw [hsent, List.getElem?_append_left hk', List.getElem?_eq_getElem hk']
  · have hline := congrArg (fun l => l[k]?) hdata
    simpa [List.getElem?_eq_getElem hk, List.getElem?_eq_getElem hk'] using hline

/-! ## From connection to connection -/

/-- Nothing is written but whole messages. -/
def WrittenWhole (s : Relay) : Prop :=
  ∀ c, (∀ m ∈ (s.conn c).written, m.cut = false) ∧ (s.conn c).torn = []

theorem WrittenWhole.update (h : WrittenWhole s) {c : ConnId} {conn : Conn}
    (hconn : s'.conn = Function.update s.conn c conn)
    (hc : (∀ m ∈ conn.written, m.cut = false) ∧ conn.torn = []) : WrittenWhole s' := by
  intro c'
  rw [hconn]
  by_cases heq : c' = c
  · subst heq
    rwa [Function.update_self]
  · rw [Function.update_of_ne heq]
    exact h c'

theorem WrittenWhole.step (h : WrittenWhole s) (hs : Step mapping capacity centralCapacity s e s')
    (hwrites : Relay.WritesWhole ⟨s, e, s'⟩) : WrittenWhole s' := by
  cases hs with
  | accept _ => exact h.update rfl ⟨by simp [Conn.opened], rfl⟩
  | write _ _ _ =>
    rename_i c m _ _ _
    refine h.update rfl ⟨fun m' hm' => ?_, (h c).2⟩
    rcases List.mem_append.mp hm' with hm' | hm'
    · exact (h c).1 m' hm'
    · rw [List.mem_singleton.mp hm']
      exact hwrites.1 c m rfl
  | writeFails _ _ _ _ _ => exact h.update rfl ⟨(h _).1, hwrites.2 _ _ rfl⟩
  | spawnSender _ | spawnReceiver _ | subscribe _ | lag _ _ | read _ _ _ _ | push _ _
  | close _ _ _ => exact h.update rfl (h _)
  | register _ | select _ _ | cleanup _ | recv _ _ | skip _ _ | check _ _ | look _ _ | giveUp _ _
  | send _ => exact h

theorem WrittenWhole.run (hrun : (machine mapping capacity centralCapacity).Run tr s)
    (hwrites : ∀ t ∈ tr, Relay.WritesWhole t) : WrittenWhole s := by
  refine hrun.invariant (C := Relay.WritesWhole) ?_ (fun _ _ _ h hs hC => h.step hs hC) hwrites
  rintro s rfl c
  exact ⟨by simp [Relay.initial, Conn.opened], rfl⟩

instance inhabitedParcel : Inhabited Parcel := ⟨⟨0, 0, 0, [], false⟩⟩

/-- What is written to a connection has been read in full, from a connection of the mapped port. -/
theorem written_source (hrun : (machine mapping capacity centralCapacity).Run tr s)
    (hwhole : WrittenWhole s) {d : ConnId} {m : Parcel} (hm : m ∈ (s.conn d).written) :
    ∃ c, m ∈ wholeFrom tr c ∧ mapping c.1 = some d.1 := by
  have hsound := Relay.Sound.run hrun
  have hlog := (hsound.tracked.follows d).written_block.subset hm
  obtain ⟨hmapping, t, ht, k, he⟩ :=
    Relay.read_of_run hrun m (hsound.numbered.log_read hlog)
  rw [(Relay.mem_log hlog).2] at hmapping
  refine ⟨(m.fromPort, k), List.mem_filter.mpr ⟨?_, by simp [(hwhole d).1 m hm]⟩, hmapping⟩
  rw [mem_readFrom]
  exact List.mem_filterMap.mpr ⟨t, ht, by rw [he, readOf]⟩

theorem readFrom_sorted (h : Traced tr s) (c : ConnId) :
    (readFrom tr c).Pairwise fun m m' => m.id < m'.id :=
  List.pairwise_map.mpr (h.sorted.filter _)

theorem wholeFrom_index_lt (h : Traced tr s) {c : ConnId} {k k' : Nat} {m m' : Parcel}
    (hk : (wholeFrom tr c)[k]? = some m) (hk' : (wholeFrom tr c)[k']? = some m')
    (hid : m.id < m'.id) : k < k' := by
  obtain ⟨hlt, rfl⟩ := List.getElem?_eq_some_iff.mp hk
  obtain ⟨hlt', rfl⟩ := List.getElem?_eq_some_iff.mp hk'
  by_contra hle
  rcases Nat.lt_or_eq_of_le (Nat.le_of_not_lt hle) with hgt | rfl
  · have hsorted := List.pairwise_iff_getElem.mp ((readFrom_sorted h c).filter _) k' k hlt' hlt hgt
    exact absurd hid (Nat.lt_asymm hsorted)
  · exact absurd hid (Nat.lt_irrefl _)

/-- Two messages of one source, in the order they are written, have been read in this order. -/
theorem written_sorted (hrun : (machine mapping capacity centralCapacity).Run tr s) (d c : ConnId) :
    (s.conn d).written.Pairwise fun m m' =>
      m ∈ readFrom tr c → m' ∈ readFrom tr c → m.id < m'.id := by
  have hsound := Relay.Sound.run hrun
  have htraced := (Traced.run hrun).1
  have hflow : (s.log d).Sublist s.flow := by
    rw [Relay.flow, List.append_assoc]
    exact (List.filter_sublist.map Prod.fst).trans (List.sublist_append_left _ _)
  have hwritten := (hsound.tracked.follows d).written_block.sublist.trans hflow
  have hfifo := (List.sublist_append_left _ _).trans (htraced.fifo c)
  have hpairs := (readFrom_sorted htraced c).sublist
    ((hwritten.filter fun m => m ∈ readFrom tr c).trans hfifo)
  simpa [List.pairwise_filter] using hpairs

/-- Given whole messages, and writing no rest of one, the relay conveys them: it loses messages, but
does not change, repeat or redirect any, and keeps the order of each connection it reads. -/
theorem relay_conveys [Nontrivial μ] (laws : codec.Lawful newline)
    (hrun : (machine mapping capacity centralCapacity).Run tr s)
    (hwrites : ∀ t ∈ tr, Relay.WritesWhole t) (hstreams : Streams codec tr sent) :
    ∃ (received : ConnId → List μ) (origin : ConnId → Nat → ConnId × Nat),
      (∀ d, Relay.bytes (s.conn d) = codec.lines newline (received d)) ∧
      Conveys sent received origin ∧ InOrder received origin ∧
      ∀ d i, i < (received d).length → mapping (origin d i).1.1 = some d.1 := by
  have hsound := Relay.Sound.run hrun
  have htraced := (Traced.run hrun).1
  have hlined := Lined.run laws hrun hstreams
  have hwhole := WrittenWhole.run hrun hwrites
  have hall : ∀ m, ∃ (place : ConnId × Nat) (x : μ), ∀ d, m ∈ (s.conn d).written →
      (wholeFrom tr place.1)[place.2]? = some m ∧ (sent place.1)[place.2]? = some x ∧
        m.data = codec.encode x ++ [newline] ∧ mapping place.1.1 = some d.1 := by
    intro m
    by_cases hm : ∃ d, m ∈ (s.conn d).written
    · obtain ⟨d, hm⟩ := hm
      obtain ⟨c, hc, hmapping⟩ := written_source hrun hwhole hm
      obtain ⟨k, x, hk, hx, hdata⟩ := hlined.place hc
      refine ⟨(c, k), x, fun d' hm' => ⟨hk, hx, hdata, ?_⟩⟩
      have hlog := (hsound.tracked.follows d).written_block.subset hm
      have hlog' := (hsound.tracked.follows d').written_block.subset hm'
      rwa [← hsound.numbered.log_inj hlog hlog' rfl]
    · obtain ⟨x, -⟩ := exists_pair_ne μ
      exact ⟨default, x, fun d hm' => absurd ⟨d, hm'⟩ hm⟩
  choose place text hplace using hall
  refine ⟨fun d => (s.conn d).written.map text, _, fun d => ?_,
    .of_things (fun d m hm => (hplace m d hm).2.1) (fun d d' m m' hm hm' heq => ?_) (fun d => ?_)
      fun d d' m hm hm' => ?_,
    .of_things fun d => ?_, fun d i hi => ?_⟩
  · rw [Relay.bytes, (hwhole d).2, List.append_nil, Codec.lines, List.map_map]
    congr 1
    exact List.map_congr_left fun m hm => (hplace m d hm).2.2.1
  · have hk := (hplace m d hm).1
    rw [heq, (hplace m' d' hm').1] at hk
    exact (Option.some.inj hk).symm
  · have hnodup := (hsound.numbered.log_nodup d).sublist
      (hsound.tracked.follows d).written_block.sublist
    exact hnodup.imp fun hne heq => hne (congrArg Parcel.id heq)
  · exact hsound.numbered.log_inj ((hsound.tracked.follows d).written_block.subset hm)
      ((hsound.tracked.follows d').written_block.subset hm') rfl
  · refine List.pairwise_iff_getElem.mpr fun i j hi hj hij hsource => ?_
    obtain ⟨hk, -, -, -⟩ := hplace _ d (List.getElem_mem hi)
    obtain ⟨hk', -, -, -⟩ := hplace _ d (List.getElem_mem hj)
    rw [← hsource] at hk'
    have hlt := List.pairwise_iff_getElem.mp (written_sorted hrun d _) i j hi hj hij
      (List.mem_filter.mp (List.mem_of_getElem? hk)).1
      (List.mem_filter.mp (List.mem_of_getElem? hk')).1
    exact wholeFrom_index_lt htraced hk hk' hlt
  · have hi' : i < (s.conn d).written.length := by simpa using hi
    simp only [List.getElem?_eq_getElem hi', Option.getD_some]
    exact (hplace _ d (List.getElem_mem hi')).2.2.2

/-! ## A run of one link -/

/-- A message from port 8012 is passed on to the connection on port 8021. -/
theorem line_run : ∃ tr s, Relay.SampleRun tr s ∧
    Relay.bytes (s.conn (8021, 1)) = Peers.debugJson ++ [newline] ∧
    (∀ t ∈ tr, Relay.WritesWhole t) ∧ ∀ t ∈ tr, ∀ p stream ending,
      t.event = .accept p stream ending → stream = [] ∨
        (p, t.before.accepted p + 1) = (8012, 1) ∧ stream = Peers.debugJson ++ [newline] := by
  have hrun : Relay.SampleRun _ _ := .nil rfl
  have hrun := hrun.snoc (e := Relay.Event.accept 8021 [] .eof) (.accept rfl)
  have hrun := hrun.snoc (.register (p := 8021) rfl)
  have hrun := hrun.snoc (.spawnSender (p := 8021) rfl)
  have hrun := hrun.snoc (.subscribe (c := (8021, 1)) rfl)
  have hrun := hrun.snoc
    (e := Relay.Event.accept 8012 (Peers.debugJson ++ [newline]) .eof) (.accept rfl)
  have hrun := hrun.snoc (.register (p := 8012) rfl)
  have hrun := hrun.snoc (.spawnSender (p := 8012) rfl)
  have hrun := hrun.snoc (.spawnReceiver (p := 8012) rfl)
  have hrun := hrun.snoc (.read (c := (8012, 1)) (q := 8021) rfl (List.cons_ne_nil _ _)
    (Or.inr rfl) rfl)
  have hrun := hrun.snoc (.push (c := (8012, 1)) rfl (Nat.zero_lt_succ _))
  have hrun := hrun.snoc (.recv rfl rfl)
  have hrun := hrun.snoc (.check rfl rfl)
  have hrun := hrun.snoc (.look (k := 1) rfl rfl)
  have hrun := hrun.snoc (.send rfl)
  have hrun := hrun.snoc (.write (c := (8021, 1)) rfl rfl (by decide))
  refine ⟨_, _, hrun, by decide, ?_, ?_⟩ <;>
    simp only [List.nil_append, List.cons_append, List.mem_cons, List.not_mem_nil, or_false,
      forall_eq_or_imp, forall_eq]
  · simp only [Relay.WritesWhole, reduceCtorEq, false_implies, implies_true, true_and, and_true,
      Relay.Event.write.injEq, and_imp]
    rintro c m rfl rfl
    decide
  · simp only [reduceCtorEq, false_implies, implies_true, and_true, true_and,
      Relay.Event.accept.injEq, and_imp]
    constructor
    · rintro p stream ending rfl rfl rfl
      exact Or.inl rfl
    · rintro p stream ending rfl rfl rfl
      exact Or.inr ⟨rfl, rfl⟩

theorem relay_conveys_sample : ∃ (tr : List (Machine.Transition Relay Relay.Event)) (s : Relay)
    (received : ConnId → List (Message ReplicaMsg)) (origin : ConnId → Nat → ConnId × Nat),
    Relay.SampleRun tr s ∧
    Peers.sampleCodec.lines newline (received (8021, 1)) = Peers.debugJson ++ [newline] ∧
    Conveys (fun c => if c = (8012, 1) then [.debug "A"] else []) received origin := by
  obtain ⟨tr, s, hrun, hbytes, hwrites, haccepts⟩ := line_run
  have hstreams : Streams Peers.sampleCodec tr
      fun c => if c = (8012, 1) then [.debug "A"] else [] := by
    intro t ht p stream ending he
    rcases haccepts t ht p stream ending he with rfl | ⟨hc, rfl⟩
    · exact List.nil_prefix
    · rw [hc, ← Peers.sample_lines]
      exact List.prefix_rfl
  obtain ⟨received, origin, hlines, hconveys, -, -⟩ :=
    relay_conveys Peers.sampleCodec_lawful hrun hwrites hstreams
  exact ⟨tr, s, received, origin, hrun, by rw [← hlines, hbytes], hconveys⟩

end Links
end OmniKV
