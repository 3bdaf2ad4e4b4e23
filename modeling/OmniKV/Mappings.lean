import OmniKV.Addresses
import OmniKV.Progress
import OmniKV.Transport

/-!
# Mappings

`PORT_MAPPINGS` of the network actor: pairs of ports, each inserted in both directions into one map, where
a later pair takes ports away from an earlier one.

`point_to_point_iff` says for which lists each port still has one counterpart. `mesh_iff` is about the
lists of `docker-compose.yml` and `kube.yml`, which join each node with each other one: the ports are
those of the addresses (`Addresses`) up to ten nodes, and TCP has them up to nine.
-/

namespace OmniKV
namespace Mappings

/-- `map.insert(mapping[0], mapping[1])` and `map.insert(mapping[1], mapping[0])`. -/
def insertMapping (map : Nat → Option Nat) : List Nat → Except String (Nat → Option Nat)
  | [p, q] => .ok (Function.update (Function.update map p (some q)) q (some p))
  | _ => .error "wrong config format"

/-- `PORT_MAPPINGS`, with the text of the panic if there is one. `var` is the environment variable and
`fromStr` reads it as a list of lists of numbers of 64 bits. -/
def portMappings (fromStr : String → Option (List (List Nat))) (var : Option String) :
    Except String (Nat → Option Nat) :=
  match var with
  | none => .error "missing config"
  | some var =>
    match fromStr var with
    | none => .error "wrong config format"
    | some x => x.foldlM insertMapping fun _ => none

/-- The map of a list of pairs, read from its end. -/
def lookup (p : Nat) : List (Nat × Nat) → Option Nat
  | [] => none
  | (a, b) :: pairs => (lookup p pairs).or (if p = b then some a else if p = a then some b else none)

def ports (pairs : List (Nat × Nat)) : List Nat := pairs.flatMap fun x => [x.1, x.2]

def lists (pairs : List (Nat × Nat)) : List (List Nat) := pairs.map fun x => [x.1, x.2]

theorem insertMapping_ok {map map' : Nat → Option Nat} {l : List Nat}
    (h : insertMapping map l = .ok map') : ∃ a b, l = [a, b] ∧ ∀ p,
      map' p = if p = b then some a else if p = a then some b else map p := by
  unfold insertMapping at h
  split at h
  · rename_i a b
    cases h
    refine ⟨a, b, rfl, fun p => ?_⟩
    simp only [Function.update_apply]
  · cases h

theorem foldlM_insertMapping {x : List (List Nat)} {map map' : Nat → Option Nat}
    (h : x.foldlM insertMapping map = .ok map') : ∃ pairs, x = lists pairs ∧
      ∀ p, map' p = (lookup p pairs).or (map p) := by
  induction x generalizing map with
  | nil =>
    cases h
    exact ⟨[], rfl, fun p => by simp [lookup]⟩
  | cons l x ih =>
    rw [List.foldlM_cons] at h
    cases hl : insertMapping map l with
    | error e =>
      rw [hl] at h
      cases h
    | ok map₁ =>
      rw [hl] at h
      obtain ⟨a, b, rfl, hmap₁⟩ := insertMapping_ok hl
      obtain ⟨pairs, rfl, hmap'⟩ := ih h
      refine ⟨(a, b) :: pairs, rfl, fun p => ?_⟩
      rw [hmap' p, hmap₁ p, lookup, Option.or_assoc]
      congr 1
      split
      · rfl
      · split <;> rfl

/-- The map is that of the pairs, or there is a panic. -/
theorem portMappings_ok {fromStr : String → Option (List (List Nat))} {var : Option String}
    {mapping : Nat → Option Nat} (h : portMappings fromStr var = .ok mapping) :
    ∃ v pairs, var = some v ∧ fromStr v = some (lists pairs) ∧ ∀ p, mapping p = lookup p pairs := by
  unfold portMappings at h
  split at h
  · cases h
  · rename_i v
    split at h
    · cases h
    · rename_i x hx
      obtain ⟨pairs, rfl, hmap⟩ := foldlM_insertMapping h
      exact ⟨v, pairs, rfl, hx, fun p => by rw [hmap p, Option.or_none]⟩

theorem lists_inj {pairs pairs' : List (Nat × Nat)} (h : lists pairs = lists pairs') :
    pairs = pairs' := by
  refine List.map_injective_iff.mpr ?_ h
  rintro ⟨a, b⟩ ⟨c, d⟩ h
  simpa using h

theorem portMappings_lists {fromStr : String → Option (List (List Nat))} {var : String}
    {mapping : Nat → Option Nat} {pairs : List (Nat × Nat)}
    (hfrom : fromStr var = some (lists pairs))
    (hmapping : portMappings fromStr (some var) = .ok mapping) (p : Nat) :
    mapping p = lookup p pairs := by
  obtain ⟨_, pairs', heq, hfrom', hlookup⟩ := portMappings_ok hmapping
  cases heq
  rw [hlookup, lists_inj (Option.some.inj (hfrom'.symm.trans hfrom))]

/-! ## Counterparts -/

variable {p q a b : Nat} {pairs pre post : List (Nat × Nat)}

theorem lookup_append (p : Nat) (pre post : List (Nat × Nat)) :
    lookup p (pre ++ post) = (lookup p post).or (lookup p pre) := by
  induction pre with
  | nil => simp [lookup]
  | cons x pre ih =>
    obtain ⟨a, b⟩ := x
    rw [List.cons_append, lookup, lookup, ih, Option.or_assoc]

theorem lookup_eq_none (h : p ∉ ports pairs) : lookup p pairs = none := by
  induction pairs with
  | nil => rfl
  | cons x pairs ih =>
    obtain ⟨a, b⟩ := x
    simp only [ports, List.flatMap_cons, List.cons_append, List.nil_append, List.mem_cons,
      not_or] at h ih
    rw [lookup, ih h.2.2, if_neg h.2.1, if_neg h.1]
    rfl

theorem lookup_isSome (h : p ∈ ports pairs) : (lookup p pairs).isSome := by
  induction pairs with
  | nil => simp [ports] at h
  | cons x pairs ih =>
    obtain ⟨a, b⟩ := x
    simp only [ports, List.flatMap_cons, List.cons_append, List.nil_append, List.mem_cons] at h ih
    rw [lookup, Option.isSome_or, Bool.or_eq_true]
    rcases h with rfl | rfl | h
    · by_cases heq : p = b <;> simp [heq]
    · simp
    · exact Or.inl (ih h)

/-- The pair that decides about a port is the last one it is in. -/
theorem exists_last (h : lookup p pairs = some q) : ∃ pre a b post,
    pairs = pre ++ (a, b) :: post ∧ p ∉ ports post ∧ (p = b ∧ q = a ∨ p = a ∧ q = b) := by
  induction pairs with
  | nil => cases h
  | cons x pairs ih =>
    obtain ⟨a, b⟩ := x
    rw [lookup] at h
    cases hrest : lookup p pairs with
    | some q' =>
      rw [hrest, Option.some_or] at h
      cases h
      obtain ⟨pre, a', b', post, rfl, hp, hor⟩ := ih hrest
      exact ⟨(a, b) :: pre, a', b', post, rfl, hp, hor⟩
    | none =>
      have hnot : p ∉ ports pairs := fun hp => by simpa [hrest] using lookup_isSome hp
      rw [hrest, Option.none_or] at h
      refine ⟨[], a, b, pairs, rfl, hnot, ?_⟩
      split at h
      · rename_i hp
        exact Or.inl ⟨hp, (Option.some.inj h).symm⟩
      · split at h
        · rename_i hp
          exact Or.inr ⟨hp, (Option.some.inj h).symm⟩
        · cases h

theorem lookup_mem_ports (h : lookup p pairs = some q) : q ∈ ports pairs := by
  obtain ⟨pre, a, b, post, rfl, -, ⟨-, rfl⟩ | ⟨-, rfl⟩⟩ := exists_last h <;> simp [ports]

/-- A port that is in no later pair is mapped to the other port of this one. -/
theorem lookup_split (pre : List (Nat × Nat)) (h : p ∉ ports post) (hp : p = b ∧ q = a ∨ p = a ∧ q = b) :
    lookup p (pre ++ (a, b) :: post) = some q := by
  rw [lookup_append, lookup, lookup_eq_none h]
  rcases hp with ⟨rfl, rfl⟩ | ⟨rfl, rfl⟩
  · simp
  · by_cases heq : p = q <;> simp [heq]

theorem symmetric_iff : (∀ p q, lookup p pairs = some q → lookup q pairs = some p) ↔
    ∀ pre a b post, pairs = pre ++ (a, b) :: post → (a ∈ ports post ↔ b ∈ ports post) := by
  constructor
  · rintro hsymm pre a b post rfl
    -- a port that a later pair takes leaves the other one mapped to it
    have hboth : ∀ {p q}, (p = b ∧ q = a ∨ p = a ∧ q = b) → q ∈ ports post → p ∈ ports post := by
      intro p q hpq hq
      by_contra hp
      have hback := hsymm _ _ (lookup_split pre hp hpq)
      obtain ⟨q', hq'⟩ := Option.isSome_iff_exists.mp (lookup_isSome hq)
      rw [lookup_append, lookup, hq', Option.some_or, Option.some_or] at hback
      cases hback
      exact hp (lookup_mem_ports hq')
    exact ⟨hboth (Or.inl ⟨rfl, rfl⟩), hboth (Or.inr ⟨rfl, rfl⟩)⟩
  · intro hsplit p q h
    obtain ⟨pre, a, b, post, rfl, hp, hor⟩ := exists_last h
    have hiff := hsplit pre a b post rfl
    rcases hor with ⟨rfl, rfl⟩ | ⟨rfl, rfl⟩
    · exact lookup_split pre (fun hq => hp (hiff.mp hq)) (Or.inr ⟨rfl, rfl⟩)
    · exact lookup_split pre (fun hq => hp (hiff.mpr hq)) (Or.inl ⟨rfl, rfl⟩)

theorem shared_of_nodup (h : (ports pairs).Nodup) :
    ∀ pre a b post, pairs = pre ++ (a, b) :: post → (a ∈ ports post ↔ b ∈ ports post) := by
  rintro pre a b post rfl
  simp only [ports, List.flatMap_append, List.flatMap_cons, List.cons_append, List.nil_append] at h
  obtain ⟨ha, hrest⟩ := List.nodup_cons.mp (List.nodup_append.mp h).2.1
  have hb := (List.nodup_cons.mp hrest).1
  exact ⟨fun hmem => absurd (List.mem_cons_of_mem _ hmem) ha, fun hmem => absurd hmem hb⟩

/-! ## Runs of the relay -/

section Runs

open Frames (newline readUntil)
open Relay (machine initial)

variable {mapping : Nat → Option Nat} {capacity centralCapacity : Nat}
  {tr : List (Machine.Transition Relay Relay.Event)} {s : Relay}

theorem written_port (hrun : (machine mapping capacity centralCapacity).Run tr s) {c : ConnId}
    {m : Parcel} (hm : m ∈ (s.conn c).written) : mapping m.fromPort = some c.1 := by
  have h := Relay.Sound.run hrun
  have hlog := (h.tracked.follows c).written_block.subset hm
  rw [← (Relay.mem_log hlog).2]
  exact (Relay.read_of_run hrun m (h.numbered.log_read hlog)).1

/-- The writing task of the first connection of `q` waits for the first message of all. -/
structure Awaits (q : Nat) (s : Relay) : Prop where
  channel : s.outChannels q = some 1
  subscribed : (s.conn (q, 1)).sender = .subscribed
  start : (s.conn (q, 1)).start = 0
  written : (s.conn (q, 1)).written = []
  sends : s.sends = []
  queue : s.queue = []
  central : s.central = .idle

variable (capacity centralCapacity)

theorem awaits_run (hq : (mapping q).isSome) (hp : (mapping p).isSome) (hne : p ≠ q) :
    ∃ (tr : List (Machine.Transition Relay Relay.Event)) (s : Relay),
      (machine mapping capacity centralCapacity).Run tr s ∧ Awaits q s ∧
      s.handler p = .listening ∧ s.accepted p = 0 := by
  have hrun : (machine mapping capacity centralCapacity).Run [] (initial mapping) := .nil rfl
  have hrun := hrun.snoc (e := Relay.Event.accept q [] .eof) (.accept (by simp [initial, hq]))
  have hrun := hrun.snoc (.register (p := q) (by simp))
  have hrun := hrun.snoc (.spawnSender (p := q) (by simp))
  have hrun := hrun.snoc (.subscribe (c := (q, 1)) (by simp [Relay.setConn, Relay.current, initial]))
  refine ⟨_, _, hrun, ?_, ?_, ?_⟩
  · constructor <;> simp [Relay.setConn, Relay.goes, Relay.current, Relay.log, initial, Conn.opened]
  · simp [Relay.setConn, Relay.goes, initial, hne, hp]
  · simp [Relay.setConn, Relay.goes, initial, hne]

/-- A connection of `p` is read meanwhile. -/
theorem reading_run (hq : (mapping q).isSome) (hp : (mapping p).isSome) (hne : p ≠ q) :
    ∃ (tr : List (Machine.Transition Relay Relay.Event)) (s : Relay),
      (machine mapping capacity centralCapacity).Run tr s ∧ Awaits q s ∧
      (s.conn (p, 1)).receiver = .reading ∧ (s.conn (p, 1)).unread = [newline] := by
  obtain ⟨tr, s, hrun, h, hlistening, haccepted⟩ := awaits_run capacity centralCapacity hq hp hne
  have hrun := hrun.snoc (e := Relay.Event.accept p [newline] .eof) (.accept hlistening)
  have hrun := hrun.snoc (.register (p := p) (by simp))
  have hrun := hrun.snoc (.spawnSender (p := p) (by simp))
  have hrun := hrun.snoc (.spawnReceiver (p := p) (by simp [Relay.setConn, Relay.goes]))
  refine ⟨_, _, hrun, ?_, ?_, ?_⟩
  · obtain ⟨hchannel, hsubscribed, hstart, hwritten, hsends, hqueue, hcentral⟩ := h
    constructor <;> simp [Relay.setConn, Relay.goes, Relay.current, hne.symm, *]
  · simp [Relay.setConn, Relay.goes, Relay.current, haccepted]
  · simp [Relay.setConn, Relay.goes, Relay.current, haccepted, Conn.opened]

/-- The message read goes on to the channel of `q`. -/
theorem sent_run (hcentral : 0 < centralCapacity) (hpq : mapping p = some q)
    (hq : (mapping q).isSome) (hne : p ≠ q) :
    ∃ (tr : List (Machine.Transition Relay Relay.Event)) (s : Relay) (m : Parcel),
      (machine mapping capacity centralCapacity).Run tr s ∧ m.fromPort = p ∧ s.log (q, 1) = [m] ∧
      (s.conn (q, 1)).sender = .subscribed ∧ (s.conn (q, 1)).start = 0 ∧
      (s.conn (q, 1)).written = [] := by
  obtain ⟨tr, s, hrun, h, hreading, hunread⟩ :=
    reading_run capacity centralCapacity hq (by simp [hpq]) hne
  have hread : Relay.Step mapping capacity centralCapacity s (.read (p, 1) (s.nextParcel (p, 1) q))
      (s.hasRead (p, 1) (s.nextParcel (p, 1) q) (readUntil newline (s.conn (p, 1)).unread).2) :=
    .read hreading (by simp [hunread]) (by simp [hunread]) hpq
  have hheld : (s.hasRead (p, 1) (s.nextParcel (p, 1) q)
      (readUntil newline (s.conn (p, 1)).unread).2).Held (p, 1) (s.nextParcel (p, 1) q) := by
    simp [Relay.Held, Relay.hasRead]
  obtain ⟨_, hrun, _⟩ := (hrun.snoc hread).extend (Relay.pushes hcentral hheld)
  obtain ⟨_, hrun, _⟩ := hrun.extend (Relay.drains _)
  obtain ⟨hchannel, hsubscribed, hstart, hwritten, hsends, hqueue, hidle⟩ := h
  refine ⟨_, _, s.nextParcel (p, 1) q, hrun, rfl, ?_, ?_, ?_, ?_⟩
  · simp [Relay.log, Relay.drained, Relay.hasPushed, Relay.hasRead, Relay.inHand, Relay.due,
      Relay.nextParcel, hsends, hqueue, hidle, hchannel]
  · simp [Relay.drained, Relay.hasPushed, Relay.hasRead, hne.symm, hsubscribed]
  · simp [Relay.drained, Relay.hasPushed, Relay.hasRead, hne.symm, hstart]
  · simp [Relay.drained, Relay.hasPushed, Relay.hasRead, hne.symm, hwritten]

variable {capacity centralCapacity}

/-- A message goes from `p` to the first connection of `q`. -/
theorem exists_written (hcapacity : 0 < capacity) (hcentral : 0 < centralCapacity)
    (hpq : mapping p = some q) (hq : (mapping q).isSome) (hne : p ≠ q) :
    ∃ (tr : List (Machine.Transition Relay Relay.Event)) (s : Relay),
      (machine mapping capacity centralCapacity).Run tr s ∧
      ∃ m ∈ (s.conn (q, 1)).written, m.fromPort = p := by
  obtain ⟨tr, s, m, hrun, hfrom, hlog, hsubscribed, hstart, hwritten⟩ :=
    sent_run capacity centralCapacity hcentral hpq hq hne
  have hahead : (s.ahead (q, 1)).length ≤ capacity := by
    simp [Relay.ahead, Broadcast.ahead, hlog, hstart, hwritten]
    omega
  have hrun := hrun.snoc (.write (c := (q, 1)) (m := m) hsubscribed
    (by simp [hlog, hstart, hwritten]) hahead)
  exact ⟨_, _, hrun, m, by simp [Relay.setConn], hfrom⟩

/-- In every run, what the connections of a port get comes from the one port it is mapped to, exactly
if no pair of the list shares just one of its ports with the pairs behind it. -/
theorem point_to_point_iff {fromStr : String → Option (List (List Nat))} {var : String}
    (hfrom : fromStr var = some (lists pairs))
    (hmapping : portMappings fromStr (some var) = .ok mapping) (hcapacity : 0 < capacity)
    (hcentral : 0 < centralCapacity) :
    (∀ (tr : List (Machine.Transition Relay Relay.Event)) (s : Relay),
      (machine mapping capacity centralCapacity).Run tr s →
      ∀ c, ∀ m ∈ (s.conn c).written, mapping c.1 = some m.fromPort) ↔
    ∀ pre a b post, pairs = pre ++ (a, b) :: post → (a ∈ ports post ↔ b ∈ ports post) := by
  have hlookup := portMappings_lists hfrom hmapping
  rw [← symmetric_iff]
  constructor
  · intro h p q hpq
    have hq : (mapping q).isSome := by
      rw [hlookup]
      exact lookup_isSome (lookup_mem_ports hpq)
    by_cases hne : p = q
    · rwa [hne] at hpq ⊢
    · rw [← hlookup] at hpq ⊢
      obtain ⟨tr, s, hrun, m, hm, rfl⟩ := exists_written hcapacity hcentral hpq hq hne
      exact h tr s hrun (q, 1) m hm
  · intro hsymm tr s hrun c m hm
    have hport := written_port hrun hm
    rw [hlookup] at hport ⊢
    exact hsymm _ _ hport

end Runs

/-- The pairs of `docker-compose.yml`. -/
def dockerCompose : List (Nat × Nat) := [(8013, 8031), (8012, 8021), (8023, 8032)]

theorem point_to_point_sample : ∃ mapping : Nat → Option Nat,
    portMappings (fun _ => some (lists dockerCompose)) (some "[[8013,8031],[8012,8021],[8023,8032]]") =
      .ok mapping ∧
    ∀ (tr : List (Machine.Transition Relay Relay.Event)) (s : Relay),
      (Relay.machine mapping 10000 10000).Run tr s →
      ∀ c, ∀ m ∈ (s.conn c).written, mapping c.1 = some m.fromPort := by
  have hmapping : portMappings (fun _ => some (lists dockerCompose))
      (some "[[8013,8031],[8012,8021],[8023,8032]]") = .ok _ := rfl
  refine ⟨_, hmapping, (point_to_point_iff rfl hmapping (by omega) (by omega)).mpr ?_⟩
  exact shared_of_nodup (by simp [dockerCompose, ports])

/-! ## Meshes -/

/-- The port in the address at which `a` reaches the network actor for `b`. -/
def peerPort (a b : Pid) : Nat := Decimal.followedBy (Decimal.followedBy 80 a.val) b.val

theorem toDigits_peerPort (a b : Pid) : Nat.toDigits 10 (peerPort a b) =
    Nat.toDigits 10 80 ++ (Nat.toDigits 10 a.val ++ Nat.toDigits 10 b.val) := by
  rw [peerPort, Decimal.toDigits_followedBy, Decimal.toDigits_followedBy (by omega), List.append_assoc]
  rw [Decimal.followedBy]
  have hpos : 0 < 10 ^ (Nat.toDigits 10 a.val).length := Nat.pow_pos (by omega)
  omega

theorem getPeerAddr_eq (a b : Pid) :
    getPeerAddr a b = "net.default.svc.cluster.local:" ++ toString (peerPort a b) := by
  rw [← String.toList_inj, toList_getPeerAddr, Decimal.toList_append_toString, toDigits_peerPort]
  have hport : "net.default.svc.cluster.local:80".toList =
      "net.default.svc.cluster.local:".toList ++ ['8', '0'] := by simp
  rw [hport, List.append_assoc]
  rfl

theorem peerPort_eq_iff {a b c d : Pid} :
    peerPort a b = peerPort c d ↔ getPeerAddr a b = getPeerAddr c d := by
  rw [getPeerAddr_eq, getPeerAddr_eq, ← String.toList_inj, Decimal.toList_append_toString,
    Decimal.toList_append_toString, List.append_cancel_left_eq, Decimal.toDigits_inj]

theorem peerPort_of_le_nine {a b : Pid} (ha : a.val ≤ 9) (hb : b.val ≤ 9) :
    peerPort a b = 8000 + 10 * a.val + b.val := by
  have hlen : ∀ {x : Nat}, x ≤ 9 → (Nat.toDigits 10 x).length = 1 := fun hx => by
    rw [Nat.toDigits_of_lt_base (by omega), List.length_singleton]
  rw [peerPort, Decimal.followedBy, Decimal.followedBy, hlen ha, hlen hb]
  omega

/-- The list joins each two of the nodes 1 to `n` by a pair of their ports, in whatever order. -/
structure Mesh (n : Nat) (pairs : List (Nat × Nat)) : Prop where
  links : ∀ x ∈ pairs, ∃ a b : Pid, a ≠ b ∧ a.val ≤ n ∧ b.val ≤ n ∧ x = (peerPort a b, peerPort b a)
  complete : ∀ a b : Pid, a ≠ b → a.val ≤ n → b.val ≤ n →
    (peerPort a b, peerPort b a) ∈ pairs ∨ (peerPort b a, peerPort a b) ∈ pairs

/-- Each port leads to the port of the same link at the other end, and to no other one. -/
def Opposite (n : Nat) (mapping : Nat → Option Nat) : Prop :=
  ∀ a b c d : Pid, a ≠ b → c ≠ d → a.val ≤ n → b.val ≤ n → c.val ≤ n → d.val ≤ n →
    (mapping (peerPort a b) = some (peerPort c d) ↔ c = b ∧ d = a)

theorem Mesh.mem_ports {n : Nat} (h : Mesh n pairs) {a b : Pid} (hne : a ≠ b) (ha : a.val ≤ n)
    (hb : b.val ≤ n) : peerPort a b ∈ ports pairs := by
  rcases h.complete a b hne ha hb with hmem | hmem
  · exact List.mem_flatMap.mpr ⟨_, hmem, by simp⟩
  · exact List.mem_flatMap.mpr ⟨_, hmem, by simp⟩

theorem peerPort_inj {n : Nat} (hn : n ≤ 10) {a b c d : Pid} (ha : a.val ≤ n) (hb : b.val ≤ n)
    (hc : c.val ≤ n) (hd : d.val ≤ n) (heq : peerPort a b = peerPort c d) : a = c ∧ b = d := by
  by_contra hpair
  exact (upTo_iff n).mpr hn a b c d ha hb hc hd (by simpa using hpair) (peerPort_eq_iff.mp heq)

theorem Mesh.opposite {n : Nat} (h : Mesh n pairs) (hn : n ≤ 10) {a b : Pid} (hne : a ≠ b)
    (ha : a.val ≤ n) (hb : b.val ≤ n) : lookup (peerPort a b) pairs = some (peerPort b a) := by
  obtain ⟨q, hq⟩ := Option.isSome_iff_exists.mp (lookup_isSome (h.mem_ports hne ha hb))
  obtain ⟨pre, x, y, post, rfl, -, hor⟩ := exists_last hq
  obtain ⟨c, d, -, hc, hd, hpair⟩ := h.links (x, y) (by simp)
  obtain ⟨rfl, rfl⟩ := Prod.mk.inj hpair
  rw [hq]
  rcases hor with ⟨hp, rfl⟩ | ⟨hp, rfl⟩
  · obtain ⟨rfl, rfl⟩ := peerPort_inj hn ha hb hd hc hp
    rfl
  · obtain ⟨rfl, rfl⟩ := peerPort_inj hn ha hb hc hd hp
    rfl

/-- A port that is mapped belongs to a link. -/
theorem Mesh.exists_link {n : Nat} (h : Mesh n pairs) (hp : (lookup p pairs).isSome) :
    ∃ a b : Pid, a ≠ b ∧ a.val ≤ n ∧ b.val ≤ n ∧ p = peerPort a b := by
  obtain ⟨q, hq⟩ := Option.isSome_iff_exists.mp hp
  obtain ⟨pre, x, y, post, rfl, -, hor⟩ := exists_last hq
  obtain ⟨a, b, hne, ha, hb, hpair⟩ := h.links (x, y) (by simp)
  obtain ⟨rfl, rfl⟩ := Prod.mk.inj hpair
  rcases hor with ⟨rfl, -⟩ | ⟨rfl, -⟩
  · exact ⟨b, a, hne.symm, hb, ha, rfl⟩
  · exact ⟨a, b, hne, ha, hb, rfl⟩

section Mesh

variable {mapping : Nat → Option Nat} {fromStr : String → Option (List (List Nat))} {var : String}
  {n : Nat}

/-- In a mesh the map leads from each link to its other end, up to ten nodes; and all ports are ports of
TCP, up to nine. -/
theorem mesh_iff (hfrom : fromStr var = some (lists pairs))
    (hmapping : portMappings fromStr (some var) = .ok mapping) (h : Mesh n pairs) :
    (Opposite n mapping ↔ n ≤ 10) ∧
    ((∀ a b : Pid, a ≠ b → a.val ≤ n → b.val ≤ n → peerPort a b < 2 ^ 16) ↔ n ≤ 9) := by
  have hlookup := portMappings_lists hfrom hmapping
  refine ⟨⟨fun hopposite => ?_, fun hn => ?_⟩, ⟨fun hvalid => ?_, fun hn => ?_⟩⟩
  · -- the two directions of the link between 1 and 11 have the same port
    by_contra hlarge
    let one : Pid := ⟨1, by omega, by omega⟩
    let eleven : Pid := ⟨11, by omega, by omega⟩
    have hsame : peerPort one eleven = peerPort eleven one :=
      peerPort_eq_iff.mpr (getPeerAddr_one_eleven rfl rfl)
    have hne : one ≠ eleven := by simp [one, eleven]
    have hone : one.val ≤ n := by simp [one]; omega
    have heleven : eleven.val ≤ n := by simp [eleven]; omega
    have hback := (hopposite one eleven eleven one hne hne.symm hone heleven heleven hone).mpr
      ⟨rfl, rfl⟩
    rw [← hsame] at hback
    exact hne ((hopposite one eleven one eleven hne hne hone heleven hone heleven).mp hback).1
  · intro a b c d hab hcd ha hb hc hd
    rw [hlookup, h.opposite hn hab ha hb, Option.some.injEq]
    constructor
    · intro heq
      obtain ⟨rfl, rfl⟩ := peerPort_inj hn hb ha hc hd heq
      exact ⟨rfl, rfl⟩
    · rintro ⟨rfl, rfl⟩
      rfl
  · by_contra hlarge
    have hlt := hvalid ⟨1, by omega, by omega⟩ ⟨10, by omega, by omega⟩ (by simp) (by simp; omega)
      (by simp; omega)
    have hlen : (Nat.toDigits 10 10).length = 2 := rfl
    have hlen' : (Nat.toDigits 10 1).length = 1 := rfl
    simp [peerPort, Decimal.followedBy, hlen, hlen'] at hlt
  · intro a b _ ha hb
    rw [peerPort_of_le_nine (ha.trans hn) (hb.trans hn)]
    omega

/-- A mesh of up to ten nodes, each of which connects at its addresses, plugs them together, where both
sides number the connections of a port alike: what is left to ask is that connections carry the bytes
written to them. -/
theorem mesh_wired {Msg : Type} (codec : Frames.Codec (Message Msg) UInt8)
    (hfrom : fromStr var = some (lists pairs))
    (hmapping : portMappings fromStr (some var) = .ok mapping) (h : Mesh n pairs) (hn : n ≤ 10) :
    ∃ plug : ConnId → Nat × ConnId,
      (∀ a b : Pid, a ≠ b → a.val ≤ n → b.val ≤ n → ∀ k,
        plug (peerPort a b, k) = (a.val, (b.val, k))) ∧
      ∀ (nodes : Nat → Endpoint Msg) (tr : List (Machine.Transition Relay Relay.Event)) (s : Relay),
        Links.Streams codec tr (fun c => (nodes (plug c).1).messages (plug c).2) →
        (∀ a c, ((nodes a).conn c).stream = [] ∨
          ∃ d, plug d = (a, c) ∧ ((nodes a).conn c).stream <+: Relay.bytes (s.conn d)) →
        Transport.Wired codec mapping plug nodes tr s := by
  have hlookup := portMappings_lists hfrom hmapping
  have hplug : ∀ c : ConnId, ∃ x : Nat × ConnId, ∀ a b : Pid, a ≠ b → a.val ≤ n → b.val ≤ n →
      peerPort a b = c.1 → x = (a.val, (b.val, c.2)) := by
    intro c
    by_cases hlink : ∃ a b : Pid, a ≠ b ∧ a.val ≤ n ∧ b.val ≤ n ∧ peerPort a b = c.1
    · obtain ⟨a, b, hne, ha, hb, hport⟩ := hlink
      refine ⟨(a.val, (b.val, c.2)), fun a' b' hne' ha' hb' hport' => ?_⟩
      obtain ⟨rfl, rfl⟩ := peerPort_inj hn ha hb ha' hb' (hport.trans hport'.symm)
      rfl
    · exact ⟨(0, c), fun a b hne ha hb hport => absurd ⟨a, b, hne, ha, hb, hport⟩ hlink⟩
  choose plug hplug using hplug
  refine ⟨plug, fun a b hne ha hb k => hplug _ a b hne ha hb rfl, ?_⟩
  intro nodes tr s hbrings htakes
  refine ⟨fun c d hcd => ?_, fun c c' hc hc' heq => ?_, hbrings, htakes⟩
  · rw [hlookup] at hcd
    obtain ⟨a, b, hne, ha, hb, hport⟩ := h.exists_link (p := c.1) (by simp [hcd])
    rw [hport, h.opposite hn hne ha hb] at hcd
    rw [hplug c a b hne ha hb hport.symm, hplug d b a hne.symm hb ha (Option.some.inj hcd)]
    exact ⟨rfl, rfl⟩
  · rw [hlookup] at hc hc'
    obtain ⟨a, b, hne, ha, hb, hport⟩ := h.exists_link hc
    obtain ⟨a', b', hne', ha', hb', hport'⟩ := h.exists_link hc'
    rw [hplug c a b hne ha hb hport.symm, hplug c' a' b' hne' ha' hb' hport'.symm] at heq
    obtain ⟨hnode, hlink⟩ := Prod.mk.inj heq
    obtain ⟨hpeer, hnumber⟩ := Prod.mk.inj hlink
    obtain rfl := Pid.ext hnode
    obtain rfl := Pid.ext hpeer
    exact Prod.ext (hport.trans hport'.symm) hnumber

theorem dockerCompose_mesh : Mesh 3 dockerCompose where
  links := by
    have hlink : ∀ a b : Nat, 0 < a → a < b → b ≤ 3 → ∃ c d : Pid, c ≠ d ∧ c.val ≤ 3 ∧ d.val ≤ 3 ∧
        (8000 + 10 * a + b, 8000 + 10 * b + a) = (peerPort c d, peerPort d c) := by
      intro a b ha hlt hb
      refine ⟨⟨a, ha, by omega⟩, ⟨b, by omega, by omega⟩, by simp; omega, by simp; omega, hb, ?_⟩
      rw [peerPort_of_le_nine (by simp; omega) (by simp; omega),
        peerPort_of_le_nine (by simp; omega) (by simp; omega)]
    simp only [dockerCompose, List.forall_mem_cons, List.not_mem_nil, false_implies, implies_true,
      and_true]
    exact ⟨hlink 1 3 (by omega) (by omega) (by omega), hlink 1 2 (by omega) (by omega) (by omega),
      hlink 2 3 (by omega) (by omega) (by omega)⟩
  complete a b hne ha hb := by
    have hval : a.val ≠ b.val := fun heq => hne (Pid.ext heq)
    have hpos := a.pos
    have hpos' := b.pos
    rw [peerPort_of_le_nine (by omega) (by omega), peerPort_of_le_nine (by omega) (by omega)]
    simp [dockerCompose]
    omega

theorem mesh_sample : ∃ mapping : Nat → Option Nat,
    portMappings (fun _ => some (lists dockerCompose)) (some "[[8013,8031],[8012,8021],[8023,8032]]") =
      .ok mapping ∧ Opposite 3 mapping := by
  have hmapping : portMappings (fun _ => some (lists dockerCompose))
      (some "[[8013,8031],[8012,8021],[8023,8032]]") = .ok _ := rfl
  exact ⟨_, hmapping, (mesh_iff rfl hmapping dockerCompose_mesh).1.mpr (by omega)⟩

theorem pair_mesh : Mesh 2 [(8012, 8021)] where
  links := by
    have hpair : ((8012, 8021) : Nat × Nat) =
        (peerPort ⟨1, by omega, by omega⟩ ⟨2, by omega, by omega⟩,
          peerPort ⟨2, by omega, by omega⟩ ⟨1, by omega, by omega⟩) := by
      rw [peerPort_of_le_nine (by simp) (by simp), peerPort_of_le_nine (by simp) (by simp)]
      rfl
    rintro x hx
    rw [List.mem_singleton.mp hx]
    exact ⟨_, _, by simp, by simp, by simp, hpair⟩
  complete a b hne ha hb := by
    have hval : a.val ≠ b.val := fun heq => hne (Pid.ext heq)
    have hpos := a.pos
    have hpos' := b.pos
    rw [peerPort_of_le_nine (by omega) (by omega), peerPort_of_le_nine (by omega) (by omega)]
    simp
    omega

theorem pair_mapping : portMappings (fun _ => some (lists [(8012, 8021)])) (some "[[8012,8021]]") =
    .ok Relay.sampleMapping := by
  have hmapping : portMappings (fun _ => some (lists [(8012, 8021)])) (some "[[8012,8021]]") =
    .ok _ := rfl
  rw [hmapping]
  refine congrArg Except.ok (funext fun p => ?_)
  rw [portMappings_lists rfl hmapping]
  by_cases hp : p = 8012 <;> by_cases hq : p = 8021 <;> simp [lookup, Relay.sampleMapping, hp, hq]

/-- Two nodes, and a relay that has passed a line of the first on to the second. -/
theorem mesh_wired_sample : ∃ (plug : ConnId → Nat × ConnId)
    (tr : List (Machine.Transition Relay Relay.Event)) (s : Relay) (nodes : Nat → Endpoint ReplicaMsg),
    plug (8012, 1) = (1, (2, 1)) ∧ Relay.SampleRun tr s ∧
    ((nodes 2).conn (1, 1)).pushed = [.debug "A"] ∧
    Transport.Wired Peers.sampleCodec Relay.sampleMapping plug nodes tr s := by
  obtain ⟨plug, hplug, hwired⟩ := mesh_wired Peers.sampleCodec rfl pair_mapping pair_mesh (by omega)
  have hsender := hplug ⟨1, by omega, by omega⟩ ⟨2, by omega, by omega⟩ (by simp) (by simp) (by simp) 1
  have hreceiver :=
    hplug ⟨2, by omega, by omega⟩ ⟨1, by omega, by omega⟩ (by simp) (by simp) (by simp) 1
  rw [peerPort_of_le_nine (by simp) (by simp)] at hsender hreceiver
  obtain ⟨tr, s, nodes, hrun, -, -, hbrings, htakes, hpushed, -⟩ :=
    Transport.line_carried Peers.sampleCodec_lawful Peers.sample_lines plug hsender hreceiver
  exact ⟨plug, tr, s, nodes, hsender, hrun, hpushed, hwired nodes tr s hbrings htakes⟩

end Mesh

end Mappings
end OmniKV
