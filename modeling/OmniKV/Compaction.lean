import Mathlib.Data.Finset.Card
import OmniKV.Kv

/-!
# Compaction

How large snapshots get. A snapshot should have each key its log has mutated once: with its value, or
among the deleted keys. But `create` pushes a key once for each deletion, and twice where the key is not
in its map, and `merge` pushes the deleted keys of the later snapshot behind those of the earlier one.

`pushes` counts this for one key over a segment, `count_build` over a tree. `compact_iff` says for which
trees each key is there once.
-/

namespace OmniKV

open Overlay

def KVCommand.mutates : KVCommand → Option String
  | .put ⟨key, _⟩ => some key
  | .delete key => some key
  | .get _ => none

/-- The distinct keys put or deleted in a log. -/
def mutatedKeys (cmds : List KVCommand) : Finset String := (cmds.filterMap KVCommand.mutates).toFinset

namespace HashMap

variable {κ ν : Type}

def keys (m : HashMap κ ν) : Finset κ := Finmap.keys m

def size (m : HashMap κ ν) : Nat := m.keys.card

theorem mem_keys [DecidableEq κ] {m : HashMap κ ν} {k : κ} :
    k ∈ m.keys ↔ ∃ v, m.get k = some v :=
  Finmap.mem_keys.trans Finmap.mem_iff

end HashMap

theorem KVCommand.mutates_iff {c : KVCommand} {k : String} :
    c.mutates = some k ↔ c.delta k ≠ none := by
  cases c with
  | put kv => simp [mutates, KVCommand.delta, Delta.write, eq_comm]
  | delete key => simp [mutates, KVCommand.delta, Delta.erase, eq_comm]
  | get key => simp [mutates, KVCommand.delta, Delta.one_apply]

theorem mem_mutatedKeys {cmds : List KVCommand} {k : String} :
    k ∈ mutatedKeys cmds ↔ logDelta cmds k ≠ none := by
  rw [mutatedKeys, List.mem_toFinset]
  induction cmds with
  | nil => simp [Delta.one_apply]
  | cons c cmds ih =>
    have hcons : k ∈ (c :: cmds).filterMap KVCommand.mutates ↔
        c.mutates = some k ∨ k ∈ cmds.filterMap KVCommand.mutates := by
      simp [List.mem_filterMap]
    rw [hcons, ih, KVCommand.mutates_iff, logDelta_cons, Delta.mul_apply, ne_eq, ne_eq, ne_eq,
      Option.or_eq_none_iff, not_and_or, or_comm]

/-! ## One segment -/

/-- How often scanning a segment pushes the key `k`, which is in the map or is not. -/
def pushes (k : String) : Bool → List KVCommand → Nat
  | _, [] => 0
  | present, .put ⟨key, _⟩ :: rest => pushes k (present || key = k) rest
  | present, .delete key :: rest =>
    if key = k then (if present then 1 else 2) + pushes k false rest else pushes k present rest
  | present, .get _ :: rest => pushes k present rest

namespace KVSnapshot

theorem count_scan (k : String) (segment : List KVCommand) (acc : KVSnapshot) :
    (segment.foldl scan acc).deletedKeys.count k =
      acc.deletedKeys.count k + pushes k (acc.snapshotted.containsKey k) segment := by
  induction segment generalizing acc with
  | nil => rfl
  | cons c rest ih =>
    rw [List.foldl_cons, ih]
    cases c with
    | put kv =>
      obtain ⟨key, value⟩ := kv
      by_cases hk : key = k
      · subst hk
        simp [scan, pushes, HashMap.containsKey]
      · simp [scan, pushes, HashMap.containsKey, hk, Ne.symm hk]
    | delete key =>
      by_cases hk : key = k
      · subst hk
        cases hget : acc.snapshotted.get key with
        | some v => simp [scan, pushes, HashMap.containsKey, hget, Nat.add_assoc]
        | none => simp [scan, pushes, HashMap.containsKey, hget, Nat.add_assoc]
      · cases hget : acc.snapshotted.get key with
        | some v => simp [scan, pushes, HashMap.containsKey, hget, hk, Ne.symm hk]
        | none => simp [scan, pushes, HashMap.containsKey, hget, hk, Ne.symm hk]
    | get key => rfl

end KVSnapshot

theorem pushes_eq_zero {k : String} {present : Bool} {segment : List KVCommand} :
    pushes k present segment = 0 ↔ segment.count (.delete k) = 0 := by
  induction segment generalizing present with
  | nil => simp [pushes]
  | cons c rest ih =>
    cases c with
    | put kv => simp [pushes, ih]
    | delete key =>
      by_cases hk : key = k
      · subst hk
        cases present <;> simp [pushes]
      · simp [pushes, hk, ih]
    | get key => simp [pushes, ih]

theorem logDelta_cons_eq_some {c : KVCommand} {cmds : List KVCommand} {k : String}
    {x : Option String} : logDelta (c :: cmds) k = some x ↔
      logDelta cmds k = some x ∨ logDelta cmds k = none ∧ c.delta k = some x := by
  rw [logDelta_cons, Delta.mul_apply, Option.or_eq_some_iff]

theorem KVCommand.delta_eq_delete {c : KVCommand} {k : String} (h : c.delta k = some none) :
    c = .delete k := by
  cases c with
  | put kv => simp [KVCommand.delta, Delta.write] at h
  | delete key => simpa [KVCommand.delta, Delta.erase, eq_comm] using h
  | get key => simp [KVCommand.delta, Delta.one_apply] at h

theorem delete_mem_of_logDelta {cmds : List KVCommand} {k : String}
    (h : logDelta cmds k = some none) : .delete k ∈ cmds := by
  induction cmds with
  | nil => simp [Delta.one_apply] at h
  | cons c cmds ih =>
    rcases logDelta_cons_eq_some.mp h with h | ⟨-, h⟩
    · exact List.mem_cons_of_mem _ (ih h)
    · rw [KVCommand.delta_eq_delete h]
      exact List.mem_cons_self

theorem logDelta_of_put_mem {cmds : List KVCommand} {k v : String} (h : .put ⟨k, v⟩ ∈ cmds) :
    logDelta cmds k ≠ none := by
  rw [← mem_mutatedKeys, mutatedKeys, List.mem_toFinset, List.mem_filterMap]
  exact ⟨_, h, rfl⟩

/-- Behind the only deletion of a key that a segment leaves deleted, it is not put. -/
theorem put_notMem_of_delete {k : String} {rest : List KVCommand}
    (h : logDelta (.delete k :: rest) k = some none) (hdelete : .delete k ∉ rest) (v : String) :
    .put ⟨k, v⟩ ∉ rest := by
  intro hput
  rcases logDelta_cons_eq_some.mp h with hrest | ⟨hrest, -⟩
  · exact hdelete (delete_mem_of_logDelta hrest)
  · exact logDelta_of_put_mem hput hrest

theorem pushes_delete_eq_one {k : String} {present : Bool} {rest : List KVCommand}
    (h : logDelta (.delete k :: rest) k = some none) :
    pushes k present (.delete k :: rest) = 1 ↔ rest.count (.delete k) = 0 ∧
      (present = true ∨ ∃ v, .put ⟨k, v⟩ ∈ rest) := by
  rw [pushes, if_pos rfl]
  constructor
  · intro hone
    have hzero : pushes k false rest = 0 := by split at hone <;> omega
    refine ⟨pushes_eq_zero.mp hzero, Or.inl ?_⟩
    by_contra hpresent
    rw [if_neg hpresent] at hone
    omega
  · rintro ⟨hzero, hput⟩
    have hpresent : present = true :=
      hput.resolve_right fun ⟨v, hv⟩ => put_notMem_of_delete h (List.count_eq_zero.mp hzero) v hv
    rw [if_pos hpresent, pushes_eq_zero.mpr hzero]

/-- A segment that ends with `k` deleted pushes it once if it deletes it once, from the map. -/
theorem pushes_eq_one {k : String} {present : Bool} {segment : List KVCommand}
    (h : logDelta segment k = some none) :
    pushes k present segment = 1 ↔ segment.count (.delete k) = 1 ∧
      (present = true ∨ ∃ v, .put ⟨k, v⟩ ∈ segment) := by
  induction segment generalizing present with
  | nil => simp [Delta.one_apply] at h
  | cons c rest ih =>
    have hcases := logDelta_cons_eq_some.mp h
    cases c with
    | put kv =>
      have hrest : logDelta rest k = some none :=
        hcases.resolve_right fun hc => by cases KVCommand.delta_eq_delete hc.2
      obtain ⟨key, value⟩ := kv
      rw [pushes, ih hrest, List.count_cons_of_ne (by simp)]
      by_cases hk : key = k
      · subst hk
        simp
      · simp [hk, Ne.symm hk]
    | delete key =>
      by_cases hk : key = k
      · subst hk
        rw [pushes_delete_eq_one h, List.count_cons_self]
        simp
      · have hrest : logDelta rest k = some none :=
          hcases.resolve_right fun hc => by
            cases KVCommand.delta_eq_delete hc.2
            exact hk rfl
        rw [pushes, if_neg hk, ih hrest, List.count_cons_of_ne (by simpa using hk)]
        simp
    | get key =>
      have hrest : logDelta rest k = some none :=
        hcases.resolve_right fun hc => by cases KVCommand.delta_eq_delete hc.2
      rw [pushes, ih hrest, List.count_cons_of_ne (by simp)]
      simp

/-! ## Trees -/

namespace KVSnapshot

theorem count_retain {s : KVSnapshot} {k : String} (h : s.snapshotted.get k = none) :
    s.retain.deletedKeys.count k = s.deletedKeys.count k := by
  rw [retain, List.count_filter]
  simp [HashMap.containsKey, h]

theorem foldl_mergeDeleted_deletedKeys (keys : List String) (s : KVSnapshot) :
    (keys.foldl mergeDeleted s).deletedKeys = s.deletedKeys ++ keys := by
  induction keys generalizing s with
  | nil => simp
  | cons key keys ih =>
    rw [List.foldl_cons, ih]
    simp [mergeDeleted]

end KVSnapshot

namespace SnapshotTree

/-- The segment that deletes `k` last deletes it once and puts it before, and of what the tree joins to
its left nothing ends with `k` deleted. -/
def DeletedOnce (k : String) : SnapshotTree → Prop
  | create segment => segment.count (.delete k) = 1 ∧ ∃ v, .put ⟨k, v⟩ ∈ segment
  | merge _ left right =>
    if logDelta right.log k = none then left.DeletedOnce k
    else right.DeletedOnce k ∧ logDelta left.log k ≠ some none

/-- Each key mutated in the log is in the snapshot once at most. -/
def Compact (t : SnapshotTree) : Prop :=
  t.build.deletedKeys.Nodup ∧
    t.build.snapshotted.size + t.build.deletedKeys.length ≤ (mutatedKeys t.log).card

theorem mem_deletedKeys {t : SnapshotTree} {k : String} :
    k ∈ t.build.deletedKeys ↔ logDelta t.log k = some none := by
  rw [KVSnapshot.Disjoint.mem_deletedKeys t.build_disjoint, build_delta]

theorem count_merge {order : HashOrder String String} {left right : SnapshotTree} {k : String}
    (h : logDelta (merge order left right).log k = some none) :
    (merge order left right).build.deletedKeys.count k =
      left.build.deletedKeys.count k + right.build.deletedKeys.count k := by
  have hget : (right.build.deletedKeys.foldl KVSnapshot.mergeDeleted { left.build with
      snapshotted := left.build.snapshotted.insertAll (order.iter right.build.snapshotted)
      }).snapshotted.get k = none :=
    (merge order left right).build_disjoint k (mem_deletedKeys.mpr h)
  rw [build, KVSnapshot.merge, KVSnapshot.count_retain hget,
    KVSnapshot.foldl_mergeDeleted_deletedKeys, List.count_append]

theorem count_eq_zero {t : SnapshotTree} {k : String} :
    t.build.deletedKeys.count k = 0 ↔ logDelta t.log k ≠ some none := by
  rw [List.count_eq_zero, mem_deletedKeys]

theorem count_build {t : SnapshotTree} {k : String} (h : logDelta t.log k = some none) :
    t.build.deletedKeys.count k = 1 ↔ t.DeletedOnce k := by
  induction t with
  | create segment =>
    have hget : (segment.foldl KVSnapshot.scan ⟨∅, []⟩).snapshotted.get k = none :=
      (create segment).build_disjoint k (mem_deletedKeys.mpr h)
    rw [build, KVSnapshot.create, KVSnapshot.count_retain hget, KVSnapshot.count_scan]
    have hone : pushes k false segment = 1 ↔ segment.count (.delete k) = 1 ∧
        (false = true ∨ ∃ v, .put ⟨k, v⟩ ∈ segment) := pushes_eq_one h
    simpa [HashMap.containsKey, DeletedOnce] using hone
  | merge order left right ihl ihr =>
    rw [count_merge h, DeletedOnce]
    have hlog : (logDelta right.log k).or (logDelta left.log k) = some none := by
      rw [log, logDelta_append, Delta.mul_apply] at h
      exact h
    cases hright : logDelta right.log k with
    | none =>
      rw [hright, Option.none_or] at hlog
      rw [if_pos rfl, count_eq_zero.mpr (by simp [hright] : logDelta right.log k ≠ some none),
        Nat.add_zero]
      exact ihl hlog
    | some x =>
      rw [hright, Option.some_or] at hlog
      rw [hlog] at hright
      have hpos : right.build.deletedKeys.count k ≠ 0 := fun hzero => count_eq_zero.mp hzero hright
      rw [if_neg (by simp), ← ihr hright, ← count_eq_zero]
      omega

/-- The keys of the map and the deleted keys are mutated keys, and there is no key in both. -/
theorem size_le {t : SnapshotTree} (h : t.build.deletedKeys.Nodup) :
    t.build.snapshotted.size + t.build.deletedKeys.length ≤ (mutatedKeys t.log).card := by
  have hkeys : ∀ k, k ∈ t.build.snapshotted.keys ↔ ∃ v, logDelta t.log k = some (some v) := by
    intro k
    rw [HashMap.mem_keys]
    refine exists_congr fun v => ?_
    rw [← build_delta, ← KVSnapshot.lookup_iff_delta]
  have hdisjoint : Disjoint t.build.snapshotted.keys t.build.deletedKeys.toFinset := by
    refine Finset.disjoint_left.mpr fun k hk hdeleted => ?_
    obtain ⟨v, hv⟩ := (hkeys k).mp hk
    rw [List.mem_toFinset, mem_deletedKeys, hv] at hdeleted
    cases hdeleted
  rw [HashMap.size, ← List.toFinset_card_of_nodup h, ← Finset.card_union_of_disjoint hdisjoint]
  refine Finset.card_le_card fun k hk => mem_mutatedKeys.mpr ?_
  rcases Finset.mem_union.mp hk with hk | hk
  · obtain ⟨v, hv⟩ := (hkeys k).mp hk
    simp [hv]
  · rw [mem_deletedKeys.mp (List.mem_toFinset.mp hk)]
    simp

/-- A snapshot has each key its log has mutated once exactly when each key it leaves deleted is pushed
once on the way. -/
theorem compact_iff (t : SnapshotTree) :
    t.Compact ↔ ∀ k, logDelta t.log k = some none → t.DeletedOnce k := by
  have hnodup : t.build.deletedKeys.Nodup ↔
      ∀ k, logDelta t.log k = some none → t.DeletedOnce k := by
    rw [List.nodup_iff_count_le_one]
    refine forall_congr' fun k => ?_
    by_cases hk : logDelta t.log k = some none
    · have hpos : t.build.deletedKeys.count k ≠ 0 := fun hzero => count_eq_zero.mp hzero hk
      rw [← count_build hk]
      simp only [hk, forall_const]
      omega
    · have hzero : t.build.deletedKeys.count k = 0 := count_eq_zero.mpr hk
      simp [hzero, hk]
  refine ⟨fun h => hnodup.mp h.1, fun h => ⟨hnodup.mpr h, ?_⟩⟩
  exact size_le (hnodup.mpr h)

/-- One deletion of a key that has not been put before. -/
theorem double_push : ¬(create [.delete "a"]).Compact := by
  intro h
  exact absurd h.1 (by decide)

end SnapshotTree
end OmniKV
