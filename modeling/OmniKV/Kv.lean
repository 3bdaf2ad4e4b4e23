import Mathlib.Data.Finmap
import OmniKV.Lib.Overlay

/-!
# Kv

Commands and snapshots of commands (`kv.rs`), and what each does to a store.

A snapshot keeps a map of the values put and a list of the keys deleted. `KVSnapshot.create` scans
a log segment, `KVSnapshot.merge` lays a later snapshot over an earlier one, and the log library
combines the two in whatever grouping its compactions happened to fall (`SnapshotTree`). Each of
them denotes the same update as the commands it stands for (`SnapshotTree.build_delta`), which
fixes the snapshot up to the order of the deleted keys (`SnapshotTree.build_eq_create`).
-/

namespace OmniKV

open Overlay

/-! ## Hash maps

A hash map is a finite map. Loops over one visit the entries in an order the map does not fix, so
a function with such a loop takes the order as an argument. -/

def HashMap (κ ν : Type) := Finmap fun _ : κ => ν

namespace HashMap

variable {κ ν : Type} [DecidableEq κ]

instance : EmptyCollection (HashMap κ ν) := ⟨(∅ : Finmap fun _ : κ => ν)⟩

def get (m : HashMap κ ν) (k : κ) : Option ν := Finmap.lookup k m

def insert (m : HashMap κ ν) (k : κ) (v : ν) : HashMap κ ν := Finmap.insert k v m

def remove (m : HashMap κ ν) (k : κ) : HashMap κ ν := Finmap.erase k m

def containsKey (m : HashMap κ ν) (k : κ) : Bool := (m.get k).isSome

/-- Collecting a list of pairs: a later pair replaces an earlier one of the same key. -/
def insertAll (m : HashMap κ ν) (l : List (κ × ν)) : HashMap κ ν :=
  l.foldl (fun m p => m.insert p.1 p.2) m

@[simp] theorem get_empty (k : κ) : (∅ : HashMap κ ν).get k = none := Finmap.lookup_empty k

@[simp] theorem get_insert (m : HashMap κ ν) (k k' : κ) (v : ν) :
    (m.insert k v).get k' = if k' = k then some v else m.get k' := by
  split
  · rename_i hk
    subst hk
    exact Finmap.lookup_insert m
  · rename_i hk
    exact Finmap.lookup_insert_of_ne m hk

@[simp] theorem get_remove (m : HashMap κ ν) (k k' : κ) :
    (m.remove k).get k' = if k' = k then none else m.get k' := by
  split
  · rename_i hk
    subst hk
    exact Finmap.lookup_erase k' m
  · rename_i hk
    exact Finmap.lookup_erase_ne hk

@[simp] theorem containsKey_eq_false {m : HashMap κ ν} {k : κ} :
    m.containsKey k = false ↔ m.get k = none := by
  simp [containsKey]

theorem ext {m m' : HashMap κ ν} (h : ∀ k, m.get k = m'.get k) : m = m' := Finmap.ext_lookup h

theorem get_insertAll (l : List (κ × ν)) (m : HashMap κ ν) :
    (m.insertAll l).get = ((l.map fun p => Delta.write p.1 p.2).prod).act m.get := by
  induction l generalizing m with
  | nil => exact (Delta.act_one _).symm
  | cons p l ih =>
    have hhead : (m.insert p.1 p.2).get = (Delta.write p.1 p.2).act m.get := by
      rw [Delta.act_write]
      exact funext fun k => get_insert m p.1 k p.2
    rw [List.map_cons, List.prod_cons, Delta.act_mul, ← hhead]
    exact ih _

/-- The value of the last pair of each key. -/
def lastValue (l : List (κ × ν)) (k : κ) : Option ν := l.reverse.lookup k

theorem get_insertAll_lastValue (l : List (κ × ν)) (m : HashMap κ ν) (k : κ) :
    (m.insertAll l).get k = (lastValue l k).or (m.get k) := by
  induction l generalizing m with
  | nil => rfl
  | cons p l ih =>
    obtain ⟨k', v⟩ := p
    refine (ih (m.insert k' v)).trans ?_
    rw [lastValue, lastValue, List.reverse_cons, List.lookup_append, Option.or_assoc, get_insert]
    by_cases hk : k = k'
    · subst hk
      simp
    · have hne : (k == k') = false := by simpa using hk
      rw [if_neg hk, List.lookup_cons, hne]
      rfl

end HashMap

/-- An order of iteration: every map, listed with each entry once. -/
structure HashOrder (κ ν : Type) [DecidableEq κ] where
  iter : HashMap κ ν → List (κ × ν)
  nodup : ∀ m, ((iter m).map Prod.fst).Nodup
  mem_iter : ∀ m k v, (k, v) ∈ iter m ↔ m.get k = some v

theorem HashOrder.prod_write_apply {κ ν : Type} [DecidableEq κ] (order : HashOrder κ ν)
    (m : HashMap κ ν) (k : κ) :
    ((order.iter m).map fun p => Delta.write p.1 p.2).prod k = (m.get k).map some :=
  Delta.prod_write_apply (order.nodup m) (order.mem_iter m k)

/-! ## Commands -/

structure KeyValue where
  key : String
  value : String
  deriving DecidableEq, Repr

inductive KVCommand where
  | put (kv : KeyValue)
  | delete (key : String)
  | get (key : String)
  deriving DecidableEq, Repr

def KVCommand.delta : KVCommand → Delta String String
  | .put ⟨key, value⟩ => Delta.write key value
  | .delete key => Delta.erase key
  | .get _ => 1

def logDelta (cmds : List KVCommand) : Delta String String := (cmds.map KVCommand.delta).prod

@[simp] theorem logDelta_nil : logDelta [] = 1 := rfl

@[simp] theorem logDelta_cons (c : KVCommand) (cmds : List KVCommand) :
    logDelta (c :: cmds) = c.delta * logDelta cmds := by
  simp [logDelta]

theorem logDelta_append (cmds cmds' : List KVCommand) :
    logDelta (cmds ++ cmds') = logDelta cmds * logDelta cmds' := by
  simp [logDelta]

def logKeys (cmds : List KVCommand) : Set String := (logDelta cmds).touched

theorem logKeys_append (cmds cmds' : List KVCommand) :
    logKeys (cmds ++ cmds') = logKeys cmds ∪ logKeys cmds' := by
  rw [logKeys, logDelta_append, Delta.touched_mul]
  rfl

theorem logKeys_take_subset (cmds : List KVCommand) {i j : Nat} (h : i ≤ j) :
    logKeys (cmds.take i) ⊆ logKeys (cmds.take j) := by
  obtain ⟨rest, hrest⟩ := List.take_prefix_take_left (l := cmds) h
  rw [← hrest, logKeys_append]
  exact Set.subset_union_left

/-! ## Snapshots -/

structure KVSnapshot where
  snapshotted : HashMap String String
  deletedKeys : List String

namespace KVSnapshot

def scan (acc : KVSnapshot) : KVCommand → KVSnapshot
  | .put ⟨key, value⟩ => { acc with snapshotted := acc.snapshotted.insert key value }
  | .delete key =>
    -- a key that was not in the snapshot is pushed twice
    let deletedKeys :=
      if (acc.snapshotted.get key).isNone then acc.deletedKeys ++ [key] else acc.deletedKeys
    { snapshotted := acc.snapshotted.remove key, deletedKeys := deletedKeys ++ [key] }
  | .get _ => acc

def retain (s : KVSnapshot) : KVSnapshot :=
  { s with deletedKeys := s.deletedKeys.filter fun k => !s.snapshotted.containsKey k }

def create (entries : List KVCommand) : KVSnapshot :=
  (entries.foldl scan ⟨∅, []⟩).retain

def mergeDeleted (s : KVSnapshot) (key : String) : KVSnapshot :=
  { snapshotted := s.snapshotted.remove key, deletedKeys := s.deletedKeys ++ [key] }

def merge (order : HashOrder String String) (s delta : KVSnapshot) : KVSnapshot :=
  let inserted := s.snapshotted.insertAll (order.iter delta.snapshotted)
  (delta.deletedKeys.foldl mergeDeleted { s with snapshotted := inserted }).retain

def Disjoint (s : KVSnapshot) : Prop := ∀ k ∈ s.deletedKeys, s.snapshotted.get k = none

/-- The update a snapshot denotes: a key of the map is written, any other deleted key deleted. -/
def delta (s : KVSnapshot) : Delta String String := fun k =>
  ((s.snapshotted.get k).map some).or (if k ∈ s.deletedKeys then some none else none)

theorem delta_congr {s t : KVSnapshot} {k : String}
    (hget : s.snapshotted.get k = t.snapshotted.get k)
    (hmem : k ∈ s.deletedKeys ↔ k ∈ t.deletedKeys) : s.delta k = t.delta k := by
  simp only [delta, hget, hmem]

theorem delta_empty : (⟨∅, []⟩ : KVSnapshot).delta = 1 := by
  ext1 k
  simp [delta, Delta.one_apply]

theorem scan_delta (acc : KVSnapshot) (c : KVCommand) :
    (acc.scan c).delta = acc.delta * c.delta := by
  ext1 k
  rw [Delta.mul_apply]
  cases c with
  | put kv =>
    obtain ⟨key, value⟩ := kv
    by_cases hk : k = key
    · subst hk
      simp [scan, delta, KVCommand.delta, Delta.write]
    · rw [KVCommand.delta, Delta.write, if_neg hk, Option.none_or]
      exact delta_congr (by simp [scan, hk]) Iff.rfl
  | delete key =>
    by_cases hk : k = key
    · subst hk
      simp [scan, delta, KVCommand.delta, Delta.erase]
    · -- the pushes of `key` do not matter to `k`
      have hmem : k ∈ (acc.scan (.delete key)).deletedKeys ↔ k ∈ acc.deletedKeys := by
        simp only [scan]
        split <;> simp [hk]
      rw [KVCommand.delta, Delta.erase, if_neg hk, Option.none_or]
      exact delta_congr (by simp [scan, hk]) hmem
  | get key => simp [scan, KVCommand.delta, Delta.one_apply]

theorem foldl_scan_delta (cmds : List KVCommand) (acc : KVSnapshot) :
    (cmds.foldl scan acc).delta = acc.delta * logDelta cmds := by
  induction cmds generalizing acc with
  | nil => simp
  | cons c cmds ih => rw [List.foldl_cons, ih, scan_delta, logDelta_cons, mul_assoc]

theorem retain_delta (s : KVSnapshot) : s.retain.delta = s.delta := by
  ext1 k
  simp only [delta, retain]
  cases h : s.snapshotted.get k with
  | some v => rfl
  | none => simp [h]

theorem retain_disjoint (s : KVSnapshot) : s.retain.Disjoint := by
  intro k hk
  simpa [retain, HashMap.containsKey] using (List.mem_filter.mp hk).2

theorem create_delta (cmds : List KVCommand) : (create cmds).delta = logDelta cmds := by
  rw [create, retain_delta, foldl_scan_delta, delta_empty, one_mul]

theorem create_disjoint (cmds : List KVCommand) : (create cmds).Disjoint := retain_disjoint _

theorem mergeDeleted_delta (s : KVSnapshot) (key : String) :
    (s.mergeDeleted key).delta = s.delta * Delta.erase key := by
  ext1 k
  rw [Delta.mul_apply]
  by_cases hk : k = key
  · subst hk
    simp [mergeDeleted, delta, Delta.erase]
  · rw [Delta.erase, if_neg hk, Option.none_or]
    exact delta_congr (by simp [mergeDeleted, hk]) (by simp [mergeDeleted, hk])

theorem foldl_mergeDeleted_delta (keys : List String) (s : KVSnapshot) :
    (keys.foldl mergeDeleted s).delta = s.delta * (keys.map Delta.erase).prod := by
  induction keys generalizing s with
  | nil => simp
  | cons key keys ih =>
    rw [List.foldl_cons, ih, mergeDeleted_delta, List.map_cons, List.prod_cons, mul_assoc]

theorem delta_insertAll (order : HashOrder String String) (s : KVSnapshot)
    (m : HashMap String String) :
    delta { s with snapshotted := s.snapshotted.insertAll (order.iter m) } =
      s.delta * ((order.iter m).map fun p => Delta.write p.1 p.2).prod := by
  ext1 k
  have hget := congrFun (HashMap.get_insertAll (order.iter m) s.snapshotted) k
  simp only [Delta.act, order.prod_write_apply] at hget
  rw [Delta.mul_apply, order.prod_write_apply]
  simp only [delta, hget]
  cases m.get k <;> simp

/-- Puts, then deletions: what the loops of `merge` do with `delta`, and `Database.handleSnapshot`
with a snapshot. -/
theorem writes_mul_erases (order : HashOrder String String) {s : KVSnapshot} (hs : s.Disjoint) :
    ((order.iter s.snapshotted).map fun p => Delta.write p.1 p.2).prod *
      (s.deletedKeys.map Delta.erase).prod = s.delta := by
  ext1 k
  rw [Delta.mul_apply, order.prod_write_apply, Delta.prod_erase_apply]
  by_cases hk : k ∈ s.deletedKeys
  · simp [delta, hk, hs k hk]
  · cases h : s.snapshotted.get k <;> simp [delta, hk, h]

theorem merge_delta (order : HashOrder String String) (s : KVSnapshot) {d : KVSnapshot}
    (hd : d.Disjoint) : (merge order s d).delta = s.delta * d.delta := by
  rw [merge, retain_delta, foldl_mergeDeleted_delta, delta_insertAll, mul_assoc,
    writes_mul_erases order hd]

theorem merge_disjoint (order : HashOrder String String) (s d : KVSnapshot) :
    (merge order s d).Disjoint := retain_disjoint _

theorem lookup_iff_delta {s : KVSnapshot} {k v : String} :
    s.snapshotted.get k = some v ↔ s.delta k = some (some v) := by
  simp only [delta]
  cases s.snapshotted.get k with
  | some v' => simp
  | none => by_cases hk : k ∈ s.deletedKeys <;> simp [hk]

theorem Disjoint.mem_deletedKeys {s : KVSnapshot} (hs : s.Disjoint) {k : String} :
    k ∈ s.deletedKeys ↔ s.delta k = some none := by
  simp only [delta]
  cases hl : s.snapshotted.get k with
  | some v' => simpa using fun hk => by simp [hs k hk] at hl
  | none => by_cases hk : k ∈ s.deletedKeys <;> simp [hk]

/-- A snapshot without a key on both sides is fixed by its update, up to the order and the
repetitions of the deleted keys. -/
theorem eq_of_delta_eq {s t : KVSnapshot} (hs : s.Disjoint) (ht : t.Disjoint)
    (h : s.delta = t.delta) :
    s.snapshotted = t.snapshotted ∧ ∀ k, k ∈ s.deletedKeys ↔ k ∈ t.deletedKeys := by
  constructor
  · refine HashMap.ext fun k => Option.ext fun v => ?_
    rw [lookup_iff_delta, lookup_iff_delta, h]
  · intro k
    rw [hs.mem_deletedKeys, ht.mem_deletedKeys, h]

end KVSnapshot

/-! ## Every way of building a snapshot -/

/-- A snapshot of a log prefix, as the log library builds it: segments scanned by `create`, joined
by `merge` in any bracketing, each merge running its loops in an order of its own. -/
inductive SnapshotTree where
  | create (segment : List KVCommand)
  | merge (order : HashOrder String String) (left right : SnapshotTree)

namespace SnapshotTree

def log : SnapshotTree → List KVCommand
  | create segment => segment
  | merge _ left right => left.log ++ right.log

def build : SnapshotTree → KVSnapshot
  | create segment => KVSnapshot.create segment
  | merge order left right => KVSnapshot.merge order left.build right.build

theorem build_disjoint (t : SnapshotTree) : t.build.Disjoint := by
  cases t with
  | create segment => exact KVSnapshot.create_disjoint segment
  | merge order left right => exact KVSnapshot.merge_disjoint order left.build right.build

theorem build_delta (t : SnapshotTree) : t.build.delta = logDelta t.log := by
  induction t with
  | create segment => exact KVSnapshot.create_delta segment
  | merge order left right ihl ihr =>
    rw [build, KVSnapshot.merge_delta order left.build right.build_disjoint, ihl, ihr, log,
      logDelta_append]

/-- Snapshots compose: the cut of the log and the bracketing of the merges do not matter. -/
theorem build_eq_create (t : SnapshotTree) :
    t.build.snapshotted = (KVSnapshot.create t.log).snapshotted ∧
      (∀ k, k ∈ t.build.deletedKeys ↔ k ∈ (KVSnapshot.create t.log).deletedKeys) ∧
      ∀ k, ¬(t.build.snapshotted.containsKey k ∧ k ∈ t.build.deletedKeys) := by
  have heq : t.build.delta = (KVSnapshot.create t.log).delta := by
    rw [t.build_delta, KVSnapshot.create_delta]
  obtain ⟨hmap, hdel⟩ :=
    KVSnapshot.eq_of_delta_eq t.build_disjoint (KVSnapshot.create_disjoint t.log) heq
  refine ⟨hmap, hdel, ?_⟩
  intro k hk
  simpa [HashMap.containsKey, t.build_disjoint k hk.2] using hk.1

end SnapshotTree
end OmniKV
