import Mathlib.Data.List.Perm.Subperm
import OmniKV.Replica

/-!
# ReadErrors

Reads that fail. `get_all_key_values` prints a read error and goes on, and the iterator ends behind it,
so it returns the pairs read before as if they were all. The StopSign arm sends them, and `handle_kv`
of the receiver deletes every key that is not among them.

`broadcastReads_iff` — no receiver loses a key exactly when no read fails before the last pair.
-/

namespace OmniKV

variable {OP Msg Storage : Type} [OmniPaxos OP Msg Storage]

/-- The pairs read before the read that fails, if one does. -/
def RocksDB.pairsRead (db : RocksDB) : Option (Nat × RocksError) → List (Bytes × Bytes)
  | none => db.toList
  | some (i, _) => db.toList.take i

/-- What an iterator from the start yields when a read behind `i` pairs fails: it ends there. -/
def RocksDB.iteratorUntil (db : RocksDB) (failure : Option (Nat × RocksError)) :
    List (Except RocksError (Bytes × Bytes)) :=
  (db.pairsRead failure).map .ok ++ (failure.map fun p => .error p.2).toList

theorem RocksDB.iteratorUntil_none (db : RocksDB) : db.iteratorUntil none = db.iterator :=
  List.append_nil _

namespace Database

/-- No read fails before the last pair of the database. -/
def ErrorsLast (db : Database) (failure : Option (Nat × RocksError)) : Prop :=
  ∀ i e, failure = some (i, e) → db.rocksDb.toList.length ≤ i

/-- What is returned as read has every pair of the database. -/
def ReadsAll (db : Database) (failure : Option (Nat × RocksError)) : Prop :=
  ∀ kvList, collectKeyValues (db.rocksDb.iteratorUntil failure) = .ok kvList →
    ∀ k v, db.get k = some v → (k, v) ∈ kvList

/-- No receiver of `kvList` misses or deletes a key of the database. -/
def Keeps (order : HashOrder String String) (db : Database) (kvList : List (String × String)) :
    Prop :=
  ∀ (B : Database) k v, db.get k = some v → (B.handleKv order kvList).get k = some v

theorem collectKeyValues_errors (l : List (Except RocksError (Bytes × Bytes)))
    (errors : List RocksError) :
    collectKeyValues (l ++ errors.map .error) = collectKeyValues l := by
  induction l with
  | nil =>
    induction errors with
    | nil => rfl
    | cons e errors ih => exact ih
  | cons r l ih =>
    cases r with
    | error e => exact ih
    | ok p =>
      obtain ⟨key, value⟩ := p
      simp only [List.cons_append, collectKeyValues, ih]

theorem mem_pairsRead {db : RocksDB} {failure : Option (Nat × RocksError)} {p : Bytes × Bytes}
    (h : p ∈ db.pairsRead failure) : p ∈ db.toList := by
  cases failure with
  | none => exact h
  | some f => exact List.mem_of_mem_take h

/-- A read error is swallowed: what was read before it is returned. -/
theorem collectKeyValues_until (db : Database) (failure : Option (Nat × RocksError)) :
    ∃ kvList, collectKeyValues (db.rocksDb.iteratorUntil failure) = .ok kvList ∧
      kvList.map (fun p => (asBytes p.1, asBytes p.2)) = db.rocksDb.pairsRead failure := by
  have herrors : (failure.map fun p => (.error p.2 : Except RocksError (Bytes × Bytes))).toList =
      (failure.map Prod.snd).toList.map .error := by
    cases failure <;> rfl
  rw [RocksDB.iteratorUntil, herrors, collectKeyValues_errors]
  refine collectKeyValues_ok fun p hp => ?_
  exact db.utf8 p.1 p.2 (Std.ExtTreeMap.mem_toList_iff_getElem?_eq_some.mp (mem_pairsRead hp))

theorem iteratorUntil_of_errorsLast {db : Database} {failure : Option (Nat × RocksError)}
    (h : db.ErrorsLast failure) :
    collectKeyValues (db.rocksDb.iteratorUntil failure) = db.getAllKeyValues := by
  cases failure with
  | none => rw [RocksDB.iteratorUntil_none, getAllKeyValues]
  | some f =>
    obtain ⟨i, e⟩ := f
    have htake : db.rocksDb.toList.take i = db.rocksDb.toList := List.take_of_length_le (h i e rfl)
    have herror := collectKeyValues_errors (db.rocksDb.toList.map .ok) [e]
    simpa [RocksDB.iteratorUntil, RocksDB.pairsRead, htake, getAllKeyValues, RocksDB.iterator] using
      herror

theorem nodup_toList (db : RocksDB) : db.toList.Nodup := by
  refine Std.ExtTreeMap.distinct_keys_toList.imp ?_
  rintro p q hne rfl
  exact hne Std.ReflCmp.compare_self

theorem errorsLast_of_readsAll {db : Database} {failure : Option (Nat × RocksError)}
    (h : db.ReadsAll failure) : db.ErrorsLast failure := by
  obtain ⟨kvList, hcollect, hmap⟩ := db.collectKeyValues_until failure
  have hsub : db.rocksDb.toList ⊆ db.rocksDb.pairsRead failure := by
    rintro ⟨key, value⟩ hp
    have hkv := Std.ExtTreeMap.mem_toList_iff_getElem?_eq_some.mp hp
    obtain ⟨hk, hv⟩ := db.utf8 key value hkv
    obtain ⟨k, hk⟩ := Option.isSome_iff_exists.mp hk
    obtain ⟨v, hv⟩ := Option.isSome_iff_exists.mp hv
    rw [← asBytes_of_fromUtf8 hk, ← asBytes_of_fromUtf8 hv] at hkv ⊢
    rw [← hmap]
    exact List.mem_map.mpr ⟨(k, v), h kvList hcollect k v (get_eq_some.mpr hkv), rfl⟩
  rintro i e rfl
  have hle := (List.subperm_of_subset (nodup_toList db.rocksDb) hsub).length_le
  rw [RocksDB.pairsRead, List.length_take] at hle
  omega

theorem readsAll_iff {db : Database} {failure : Option (Nat × RocksError)} :
    db.ReadsAll failure ↔ db.ErrorsLast failure := by
  refine ⟨errorsLast_of_readsAll, fun h kvList hcollect k v hkv => ?_⟩
  obtain ⟨kvList', hall, -, hmem⟩ := db.getAllKeyValues_ok
  rw [iteratorUntil_of_errorsLast h, hall] at hcollect
  cases hcollect
  exact (hmem k v).mpr hkv

/-- A receiver has the pairs it is sent, and of each key the last. -/
theorem Keeps.mem {order : HashOrder String String} {db : Database}
    {kvList : List (String × String)} (h : db.Keeps order kvList) {k v : String}
    (hkv : db.get k = some v) : (k, v) ∈ kvList := by
  have hget := h empty k v hkv
  rw [get_handleKv, HashMap.get_insertAll_lastValue, HashMap.get_empty, Option.or_none,
    HashMap.lastValue, List.lookup_eq_some_iff] at hget
  obtain ⟨front, back, hsplit, -⟩ := hget
  have hmem : (k, v) ∈ kvList.reverse := by simp [hsplit]
  exact List.mem_reverse.mp hmem

theorem keeps_iff (order : HashOrder String String) {db : Database}
    {failure : Option (Nat × RocksError)} {kvList : List (String × String)}
    (h : collectKeyValues (db.rocksDb.iteratorUntil failure) = .ok kvList) :
    db.Keeps order kvList ↔ db.ErrorsLast failure := by
  constructor
  · intro hkeeps
    refine errorsLast_of_readsAll fun kvList' hcollect k v hkv => ?_
    rw [h] at hcollect
    cases hcollect
    exact hkeeps.mem hkv
  · intro hlast B k v hkv
    rw [iteratorUntil_of_errorsLast hlast] at h
    rwa [handleKv_getAllKeyValues order h B]

end Database

/-! ## The state transfer -/

namespace Server

/-- `broadcastState` where a read of the database may fail. -/
def broadcastReads (env : Env) (newConfiguration : ClusterConfig)
    (failure : Option (Nat × RocksError)) (s : Server OP Msg) : Except Panic (Server OP Msg) :=
  if env.pid ∈ newConfiguration.nodes then
    match Database.collectKeyValues (s.database.rocksDb.iteratorUntil failure) with
    | .error _ => .error .notUtf8
    | .ok kvPairs => .ok (s.sendAll env.peers (.stateCatchup kvPairs))
  else
    .ok s

theorem broadcastReads_none (env : Env) (newConfiguration : ClusterConfig) (s : Server OP Msg) :
    s.broadcastReads env newConfiguration none = s.broadcastState env newConfiguration := by
  unfold broadcastReads
  rw [RocksDB.iteratorUntil_none]
  rfl

/-- No state transfer makes a receiver miss or delete a key of the sender. -/
def TransfersKeep (env : Env) (order : HashOrder String String) (newConfiguration : ClusterConfig)
    (failure : Option (Nat × RocksError)) (s : Server OP Msg) : Prop :=
  ∀ s', s.broadcastReads env newConfiguration failure = .ok s' → ∀ pid kvList,
    (pid, .stateCatchup kvList) ∈ s'.network.sent.drop s.network.sent.length →
      s.database.Keeps order kvList

theorem transfersKeep_iff {env : Env} (order : HashOrder String String)
    {newConfiguration : ClusterConfig} {failure : Option (Nat × RocksError)}
    {s : Server OP Msg} : s.TransfersKeep env order newConfiguration failure ↔
      (env.pid ∈ newConfiguration.nodes → env.peers ≠ [] → s.database.ErrorsLast failure) := by
  obtain ⟨kvList, hcollect, -⟩ := s.database.collectKeyValues_until failure
  rw [← Database.keeps_iff order hcollect]
  by_cases hmem : env.pid ∈ newConfiguration.nodes
  · have hsent : s.broadcastReads env newConfiguration failure = .ok { s with network :=
        { sent := s.network.sent ++ env.peers.map fun pid => (pid, .stateCatchup kvList) } } := by
      simp only [broadcastReads, if_pos hmem, hcollect, sendAll_eq]
    constructor
    · intro hkeep _ hpeers
      obtain ⟨pid, hpid⟩ := List.exists_mem_of_ne_nil _ hpeers
      refine hkeep _ hsent pid kvList ?_
      rw [List.drop_left]
      exact List.mem_map_of_mem hpid
    · intro hkeep s' hs' pid kvList' hin
      rw [hsent] at hs'
      cases hs'
      rw [List.drop_left] at hin
      obtain ⟨peer, hpeer, heq⟩ := List.mem_map.mp hin
      cases heq
      exact hkeep hmem (List.ne_nil_of_mem hpeer)
  · refine iff_of_true ?_ fun h => absurd h hmem
    intro s' hs' pid kvList' hin
    rw [broadcastReads, if_neg hmem] at hs'
    cases hs'
    simp at hin

/-- All pairs are read, and no receiver of a state transfer loses one, exactly when no read fails before
the last pair. -/
theorem broadcastReads_iff (env : Env) (order : HashOrder String String)
    (newConfiguration : ClusterConfig) (failure : Option (Nat × RocksError)) (s : Server OP Msg) :
    (s.database.ReadsAll failure ↔ s.database.ErrorsLast failure) ∧
    (s.TransfersKeep env order newConfiguration failure ↔
      (env.pid ∈ newConfiguration.nodes → env.peers ≠ [] → s.database.ErrorsLast failure)) :=
  ⟨Database.readsAll_iff, transfersKeep_iff order⟩

end Server

/-- The first read fails: nothing is read, and the key is deleted. -/
theorem Database.read_error_deletes :
    ¬(empty.put "a" "1").ReadsAll (some (0, .read)) ∧
    ¬∀ kvList, collectKeyValues ((empty.put "a" "1").rocksDb.iteratorUntil (some (0, .read))) =
      .ok kvList → (empty.put "a" "1").Keeps .sorted kvList := by
  have hget : (empty.put "a" "1").get "a" = some "1" := by simp [get_put, Overlay.Delta.act_write]
  constructor
  · intro hall
    cases hall [] rfl "a" "1" hget
  · intro hall
    cases (hall [] rfl).mem hget

end OmniKV
