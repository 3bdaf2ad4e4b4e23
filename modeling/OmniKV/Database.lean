import Std.Data.ExtTreeMap
import Mathlib.Data.List.Nodup
import OmniKV.Kv

/-!
# Database

The key-value store of a node (`database.rs`): RocksDB holds bytes, the program reads and writes
strings. Every stored key and value is a UTF-8 string, which the type `Database` carries as a
field, so a read never fails to decode.

`Database.get` is the whole contents (`Database.ext_get`). Each operation is an update of it:

* `get_handleCommand`, `get_handleSnapshot` — a command or a snapshot acts as its `delta`.
* `get_handleKv`, `getAllKeyValues_ok` — a state transfer replaces the contents.
-/

namespace OmniKV

open Overlay

abbrev Bytes := List UInt8

def asBytes (s : String) : Bytes := s.toUTF8.data.toList

def fromUtf8 (bytes : Bytes) : Option String := String.fromUTF8? ⟨⟨bytes⟩⟩

theorem fromUtf8_asBytes (s : String) : fromUtf8 (asBytes s) = some s := by
  have hvalid : s.toByteArray.IsValidUTF8 := s.isValidUTF8
  have hbytes : (⟨⟨asBytes s⟩⟩ : ByteArray) = s.toByteArray := rfl
  rw [fromUtf8, hbytes, String.fromUTF8?, dif_pos hvalid]
  rfl

theorem asBytes_of_fromUtf8 {bytes : Bytes} {s : String} (h : fromUtf8 bytes = some s) :
    asBytes s = bytes := by
  simp only [fromUtf8, String.fromUTF8?] at h
  split at h
  · cases h
    rfl
  · cases h

theorem asBytes_inj {s t : String} (h : asBytes s = asBytes t) : s = t := by
  have hs := fromUtf8_asBytes s
  rw [h, fromUtf8_asBytes] at hs
  exact (Option.some.inj hs).symm

/-! ## RocksDB -/

abbrev RocksDB := Std.ExtTreeMap Bytes Bytes

inductive RocksError where
  | read
  deriving DecidableEq, Repr

/-- What an iterator from the start yields when no read fails: the entries in byte order. -/
def RocksDB.iterator (db : RocksDB) : List (Except RocksError (Bytes × Bytes)) :=
  db.toList.map .ok

inductive FromUtf8Error where
  | invalid
  deriving DecidableEq, Repr

structure Database where
  rocksDb : RocksDB
  utf8 : ∀ k v, rocksDb[k]? = some v → (fromUtf8 k).isSome ∧ (fromUtf8 v).isSome

namespace Database

def empty : Database := ⟨∅, by simp⟩

def get (db : Database) (key : String) : Option String :=
  match h : db.rocksDb[asBytes key]? with
  | some value => some ((fromUtf8 value).get (db.utf8 _ _ h).2)
  | none => none

def put (db : Database) (key value : String) : Database where
  rocksDb := db.rocksDb.insert (asBytes key) (asBytes value)
  utf8 := by
    intro k v hkv
    rw [Std.ExtTreeMap.getElem?_insert] at hkv
    split at hkv
    · rename_i hk
      cases hkv
      rw [← Std.LawfulEqCmp.eq_of_compare hk]
      simp [fromUtf8_asBytes]
    · exact db.utf8 k v hkv

def delete (db : Database) (key : String) : Database where
  rocksDb := db.rocksDb.erase (asBytes key)
  utf8 := by
    intro k v hkv
    rw [Std.ExtTreeMap.getElem?_erase] at hkv
    split at hkv
    · cases hkv
    · exact db.utf8 k v hkv

theorem get_eq_bind (db : Database) (key : String) :
    db.get key = db.rocksDb[asBytes key]?.bind fromUtf8 := by
  unfold get
  split
  · rename_i value h
    simp [h]
  · rename_i h
    simp [h]

theorem get_eq_some {db : Database} {key value : String} :
    db.get key = some value ↔ db.rocksDb[asBytes key]? = some (asBytes value) := by
  rw [get_eq_bind, Option.bind_eq_some_iff]
  constructor
  · rintro ⟨v, hv, hdec⟩
    rw [hv, asBytes_of_fromUtf8 hdec]
  · intro h
    exact ⟨asBytes value, h, fromUtf8_asBytes value⟩

@[simp] theorem get_empty (key : String) : empty.get key = none := by
  rw [get_eq_bind]
  simp [empty]

/-- The contents determine the database: no stored entry is out of reach of `get`. -/
theorem ext_get {db db' : Database} (h : db.get = db'.get) : db = db' := by
  have hle : ∀ {d d' : Database}, d.get = d'.get → ∀ k v : Bytes, d.rocksDb[k]? = some v →
      d'.rocksDb[k]? = some v := by
    intro d d' hdd k v hkv
    obtain ⟨hk, hv⟩ := d.utf8 k v hkv
    obtain ⟨key, hkey⟩ := Option.isSome_iff_exists.mp hk
    obtain ⟨value, hvalue⟩ := Option.isSome_iff_exists.mp hv
    rw [← asBytes_of_fromUtf8 hkey, ← asBytes_of_fromUtf8 hvalue] at hkv ⊢
    rw [← get_eq_some] at hkv ⊢
    rw [← hdd, hkv]
  obtain ⟨rocks, hutf⟩ := db
  obtain ⟨rocks', hutf'⟩ := db'
  have hrocks : rocks = rocks' := Std.ExtTreeMap.ext_getElem? fun k => Option.ext fun v =>
    ⟨hle h k v, hle h.symm k v⟩
  subst hrocks
  rfl

theorem get_put (db : Database) (key value : String) :
    (db.put key value).get = (Delta.write key value).act db.get := by
  rw [Delta.act_write]
  funext k
  by_cases hk : k = key
  · subst hk
    rw [if_pos rfl, get_eq_some]
    simp [put]
  · have hne : asBytes key ≠ asBytes k := fun h => hk (asBytes_inj h).symm
    simp [get_eq_bind, put, Std.ExtTreeMap.getElem?_insert, hne, hk]

theorem get_delete (db : Database) (key : String) :
    (db.delete key).get = (Delta.erase key).act db.get := by
  rw [Delta.act_erase]
  funext k
  by_cases hk : k = key
  · subst hk
    simp [get_eq_bind, delete]
  · have hne : asBytes key ≠ asBytes k := fun h => hk (asBytes_inj h).symm
    simp [get_eq_bind, delete, Std.ExtTreeMap.getElem?_erase, hne, hk]

/-! ## Commands and snapshots -/

def handleCommand (db : Database) : KVCommand → Database × Option String
  | .put ⟨key, value⟩ => (db.put key value, none)
  | .delete key => (db.delete key, none)
  | .get key => (db, db.get key)

def handleSnapshot (order : HashOrder String String) (db : Database) (s : KVSnapshot) : Database :=
  let db := (order.iter s.snapshotted).foldl (fun db p => db.put p.1 p.2) db
  s.deletedKeys.foldl delete db

/-- Apply a log command by command. -/
def applyCommands (db : Database) (cmds : List KVCommand) : Database :=
  cmds.foldl (fun db cmd => (db.handleCommand cmd).1) db

theorem get_handleCommand (db : Database) (cmd : KVCommand) :
    (db.handleCommand cmd).1.get = cmd.delta.act db.get := by
  cases cmd with
  | put kv => exact get_put db kv.key kv.value
  | delete key => exact get_delete db key
  | get key => rfl

theorem get_applyCommands (db : Database) (cmds : List KVCommand) :
    (db.applyCommands cmds).get = (logDelta cmds).act db.get := by
  induction cmds generalizing db with
  | nil => rfl
  | cons cmd cmds ih =>
    rw [logDelta_cons, Delta.act_mul, ← get_handleCommand, ← ih]
    rfl

theorem applyCommands_append (db : Database) (cmds cmds' : List KVCommand) :
    db.applyCommands (cmds ++ cmds') = (db.applyCommands cmds).applyCommands cmds' := by
  simp [applyCommands]

theorem applyCommands_eq_iff {db db' : Database} {cmds : List KVCommand} :
    db.applyCommands cmds = db'.applyCommands cmds ↔ Set.EqOn db.get db'.get (logKeys cmds)ᶜ := by
  rw [logKeys, ← Delta.act_eq_act_iff, ← get_applyCommands, ← get_applyCommands]
  exact ⟨fun h => by rw [h], ext_get⟩

theorem get_putAll (l : List (String × String)) (db : Database) :
    (l.foldl (fun db p => db.put p.1 p.2) db).get =
      ((l.map fun p => Delta.write p.1 p.2).prod).act db.get := by
  induction l generalizing db with
  | nil => rfl
  | cons p l ih =>
    rw [List.foldl_cons, ih, get_put, List.map_cons, List.prod_cons, Delta.act_mul]

theorem get_deleteAll (keys : List String) (db : Database) :
    (keys.foldl delete db).get = ((keys.map Delta.erase).prod).act db.get := by
  induction keys generalizing db with
  | nil => rfl
  | cons key keys ih =>
    rw [List.foldl_cons, ih, get_delete, List.map_cons, List.prod_cons, Delta.act_mul]

theorem get_handleSnapshot (order : HashOrder String String) (db : Database) {s : KVSnapshot}
    (hs : s.Disjoint) : (db.handleSnapshot order s).get = s.delta.act db.get := by
  rw [handleSnapshot, get_deleteAll, get_putAll, ← Delta.act_mul,
    KVSnapshot.writes_mul_erases order hs]

/-- A snapshot of a log prefix does to a database what the prefix does, command by command. -/
theorem handleSnapshot_build (order : HashOrder String String) (db : Database)
    (t : SnapshotTree) : db.handleSnapshot order t.build = db.applyCommands t.log := by
  apply ext_get
  rw [get_handleSnapshot order db t.build_disjoint, t.build_delta, get_applyCommands]

/-- The snapshot of a log does to a database what the log does, in whatever order its map is visited. -/
theorem snapshot_eq_replay (order : HashOrder String String) (db : Database)
    (cmds : List KVCommand) : db.handleSnapshot order (.create cmds) = db.applyCommands cmds :=
  handleSnapshot_build order db (.create cmds)

/-- Replaying a log over a database that has already run a prefix of it. -/
theorem applyCommands_absorb (db : Database) (cmds : List KVCommand) {i j : Nat} (h : i ≤ j) :
    (db.applyCommands (cmds.take i)).applyCommands (cmds.take j) =
      db.applyCommands (cmds.take j) := by
  apply ext_get
  rw [get_applyCommands, get_applyCommands, get_applyCommands]
  exact Delta.act_absorb (logKeys_take_subset cmds h) db.get

/-! ## Single writes

A process can be killed between any two writes to RocksDB, so a snapshot is also the list of its
writes. -/

inductive Write where
  | put (key value : String)
  | delete (key : String)
  deriving DecidableEq, Repr

def Write.delta : Write → Delta String String
  | .put key value => Delta.write key value
  | .delete key => Delta.erase key

def write (db : Database) : Write → Database
  | .put key value => db.put key value
  | .delete key => db.delete key

def commandWrites : KVCommand → List Write
  | .put ⟨key, value⟩ => [.put key value]
  | .delete key => [.delete key]
  | .get _ => []

def snapshotWrites (order : HashOrder String String) (s : KVSnapshot) : List Write :=
  (order.iter s.snapshotted).map (fun p => .put p.1 p.2) ++ s.deletedKeys.map .delete

theorem handleCommand_eq_writes (db : Database) (cmd : KVCommand) :
    (db.handleCommand cmd).1 = (commandWrites cmd).foldl write db := by
  cases cmd <;> rfl

theorem handleSnapshot_eq_writes (order : HashOrder String String) (db : Database)
    (s : KVSnapshot) : db.handleSnapshot order s = (snapshotWrites order s).foldl write db := by
  rw [handleSnapshot, snapshotWrites, List.foldl_append, List.foldl_map, List.foldl_map]
  rfl

theorem get_writes (ws : List Write) (db : Database) :
    (ws.foldl write db).get = ((ws.map Write.delta).prod).act db.get := by
  induction ws generalizing db with
  | nil => rfl
  | cons w ws ih =>
    have hhead : (db.write w).get = w.delta.act db.get := by
      cases w with
      | put key value => exact get_put db key value
      | delete key => exact get_delete db key
    rw [List.foldl_cons, ih, hhead, List.map_cons, List.prod_cons, Delta.act_mul]

theorem commandWrites_touched {cmd : KVCommand} :
    ∀ w ∈ commandWrites cmd, w.delta.touched ⊆ cmd.delta.touched := by
  intro w hw
  cases cmd with
  | put kv =>
    obtain rfl := List.mem_singleton.mp hw
    rfl
  | delete key =>
    obtain rfl := List.mem_singleton.mp hw
    rfl
  | get key => cases hw

theorem snapshotWrites_touched {order : HashOrder String String} {s : KVSnapshot}
    (hs : s.Disjoint) : ∀ w ∈ snapshotWrites order s, w.delta.touched ⊆ s.delta.touched := by
  intro w hw k hk
  rw [Delta.mem_touched, KVSnapshot.delta]
  rcases List.mem_append.mp hw with hw | hw
  · obtain ⟨p, hp, rfl⟩ := List.mem_map.mp hw
    rw [Write.delta, Delta.touched_write, Set.mem_singleton_iff] at hk
    rw [hk, (order.mem_iter _ _ _).mp hp]
    simp
  · obtain ⟨key, hkey, rfl⟩ := List.mem_map.mp hw
    rw [Write.delta, Delta.touched_erase, Set.mem_singleton_iff] at hk
    rw [hk, hs key hkey]
    simp [hkey]

/-! ## State transfer -/

def collectKeyValues : List (Except RocksError (Bytes × Bytes)) →
    Except FromUtf8Error (List (String × String))
  | [] => .ok []
  -- a read error is printed, and the loop goes on
  | .error _ :: rest => collectKeyValues rest
  | .ok (key, value) :: rest =>
    match fromUtf8 key with
    | none => .error .invalid
    | some keyStr =>
      match fromUtf8 value with
      | none => .error .invalid
      | some valueStr =>
        match collectKeyValues rest with
        | .error e => .error e
        | .ok kvList => .ok ((keyStr, valueStr) :: kvList)

def getAllKeyValues (db : Database) : Except FromUtf8Error (List (String × String)) :=
  collectKeyValues db.rocksDb.iterator

/-- The key of an iterator result, where there is one and it decodes. -/
def decodedKey : Except RocksError (Bytes × Bytes) → Option String
  | .ok (key, _) => fromUtf8 key
  | .error _ => none

def handleKv (order : HashOrder String String) (db : Database) (kvList : List (String × String)) :
    Database :=
  let newState : HashMap String String := (∅ : HashMap String String).insertAll kvList
  let db := (order.iter newState).foldl (fun db p => db.put p.1 p.2) db
  let currentKeys := db.rocksDb.iterator.filterMap decodedKey
  currentKeys.foldl (fun db key => if newState.containsKey key then db else db.delete key) db

theorem collectKeyValues_ok {l : List (Bytes × Bytes)}
    (hl : ∀ p ∈ l, (fromUtf8 p.1).isSome ∧ (fromUtf8 p.2).isSome) :
    ∃ kvList, collectKeyValues (l.map .ok) = .ok kvList ∧
      kvList.map (fun p => (asBytes p.1, asBytes p.2)) = l := by
  induction l with
  | nil => exact ⟨[], rfl, rfl⟩
  | cons p l ih =>
    obtain ⟨k, v⟩ := p
    obtain ⟨kvList, hcollect, hmap⟩ := ih fun p hp => hl p (by simp [hp])
    obtain ⟨hk, hv⟩ := hl (k, v) (by simp)
    obtain ⟨key, hkey⟩ := Option.isSome_iff_exists.mp hk
    obtain ⟨value, hvalue⟩ := Option.isSome_iff_exists.mp hv
    refine ⟨(key, value) :: kvList, ?_, ?_⟩
    · simp [collectKeyValues, hkey, hvalue, hcollect]
    · simp [hmap, asBytes_of_fromUtf8 hkey, asBytes_of_fromUtf8 hvalue]

/-- Without read errors, all key-value pairs of a database are its contents, each once. -/
theorem getAllKeyValues_ok (db : Database) :
    ∃ kvList, db.getAllKeyValues = .ok kvList ∧ (kvList.map Prod.fst).Nodup ∧
      ∀ k v, (k, v) ∈ kvList ↔ db.get k = some v := by
  have hdecode : ∀ p ∈ db.rocksDb.toList, (fromUtf8 p.1).isSome ∧ (fromUtf8 p.2).isSome := by
    intro p hp
    exact db.utf8 p.1 p.2 (Std.ExtTreeMap.mem_toList_iff_getElem?_eq_some.mp hp)
  obtain ⟨kvList, hcollect, hmap⟩ := collectKeyValues_ok hdecode
  refine ⟨kvList, hcollect, ?_, ?_⟩
  · have hdistinct := Std.ExtTreeMap.distinct_keys_toList (t := db.rocksDb)
    rw [← hmap, List.pairwise_map] at hdistinct
    refine List.pairwise_map.mpr (hdistinct.imp fun hne heq => hne ?_)
    rw [heq]
    exact Std.ReflCmp.compare_self
  · intro k v
    rw [get_eq_some, ← Std.ExtTreeMap.mem_toList_iff_getElem?_eq_some, ← hmap, List.mem_map]
    constructor
    · intro hkv
      exact ⟨(k, v), hkv, rfl⟩
    · rintro ⟨⟨k', v'⟩, hkv, heq⟩
      obtain ⟨hk, hv⟩ := Prod.mk.inj heq
      rwa [← asBytes_inj hk, ← asBytes_inj hv]

theorem mem_decodedKeys {db : Database} {key : String} :
    key ∈ db.rocksDb.iterator.filterMap decodedKey ↔ (db.get key).isSome := by
  simp only [RocksDB.iterator, List.filterMap_map, List.mem_filterMap, Function.comp, decodedKey]
  constructor
  · rintro ⟨⟨k, v⟩, hkv, hk⟩
    rw [Std.ExtTreeMap.mem_toList_iff_getElem?_eq_some] at hkv
    obtain ⟨_, hv⟩ := db.utf8 k v hkv
    obtain ⟨value, hvalue⟩ := Option.isSome_iff_exists.mp hv
    have hkey : asBytes key = k := asBytes_of_fromUtf8 hk
    rw [← hkey, ← asBytes_of_fromUtf8 hvalue, ← get_eq_some] at hkv
    simp [hkv]
  · intro h
    obtain ⟨value, hvalue⟩ := Option.isSome_iff_exists.mp h
    rw [get_eq_some, ← Std.ExtTreeMap.mem_toList_iff_getElem?_eq_some] at hvalue
    exact ⟨_, hvalue, fromUtf8_asBytes key⟩

theorem get_deleteMissing (newState : HashMap String String) (keys : List String) (db : Database)
    (k : String) :
    (keys.foldl (fun db key => if newState.containsKey key then db else db.delete key) db).get k =
      if k ∈ keys ∧ newState.get k = none then none else db.get k := by
  induction keys generalizing db with
  | nil => simp
  | cons key keys ih =>
    rw [List.foldl_cons, ih]
    by_cases hkeys : k ∈ keys ∧ newState.get k = none
    · simp [hkeys]
    · rw [if_neg hkeys]
      by_cases hk : k = key
      · subst hk
        cases hget : newState.get k with
        | some v => simp [HashMap.containsKey, hget]
        | none => simp [HashMap.containsKey, hget, get_delete, Delta.act_erase]
      · have hrest : ¬(k ∈ key :: keys ∧ newState.get k = none) := by simpa [hk] using hkeys
        rw [if_neg hrest]
        split
        · rfl
        · simp [get_delete, Delta.act_erase, hk]

/-- A state transfer leaves exactly the pairs sent, whatever the database held. -/
theorem get_handleKv (order : HashOrder String String) (db : Database)
    (kvList : List (String × String)) :
    (db.handleKv order kvList).get = ((∅ : HashMap String String).insertAll kvList).get := by
  funext k
  simp only [handleKv, get_deleteMissing, mem_decodedKeys, get_putAll, Delta.act,
    order.prod_write_apply]
  cases ((∅ : HashMap String String).insertAll kvList).get k with
  | some v => simp
  | none => cases db.get k <;> simp

/-- Collected into a map, `kvList` is what the database holds. -/
def Lists (db : Database) (kvList : List (String × String)) : Prop :=
  ((∅ : HashMap String String).insertAll kvList).get = db.get

theorem handleKv_eq_iff (order : HashOrder String String) (db db' : Database)
    (kvList : List (String × String)) : db'.handleKv order kvList = db ↔ db.Lists kvList := by
  rw [Lists, ← get_handleKv order db' kvList]
  exact ⟨fun h => by rw [h], ext_get⟩

/-- What `getAllKeyValues` reads from `A` turns any database into `A`. -/
theorem handleKv_getAllKeyValues (order : HashOrder String String) {A : Database}
    {kvList : List (String × String)} (h : A.getAllKeyValues = .ok kvList) (B : Database) :
    B.handleKv order kvList = A := by
  obtain ⟨kvList', hall, hnodup, hmem⟩ := A.getAllKeyValues_ok
  rw [hall] at h
  obtain rfl := Except.ok.inj h
  apply ext_get
  rw [get_handleKv, HashMap.get_insertAll]
  funext k
  rw [Delta.act, Delta.prod_write_apply hnodup (hmem k)]
  cases A.get k <;> simp

/-- State transfer is exact: what one database reads makes any other equal to it, and a list makes any
database the map of the last value of each key, and nothing else. -/
theorem transfer_exact (order : HashOrder String String) (A B : Database) :
    (∃ kvList, A.getAllKeyValues = .ok kvList ∧ B.handleKv order kvList = A) ∧
      ∀ kvList D, B.handleKv order kvList = D ↔ D.get = HashMap.lastValue kvList := by
  constructor
  · obtain ⟨kvList, hall, -, -⟩ := A.getAllKeyValues_ok
    exact ⟨kvList, hall, handleKv_getAllKeyValues order hall B⟩
  · intro kvList D
    have hlast : ((∅ : HashMap String String).insertAll kvList).get = HashMap.lastValue kvList := by
      funext k
      rw [HashMap.get_insertAll_lastValue, HashMap.get_empty, Option.or_none]
    rw [handleKv_eq_iff, Lists, hlast, eq_comm]

/-- The writes of `handleKv`, in order: it can be killed between any two of them as well. -/
def kvWrites (order : HashOrder String String) (db : Database) (kvList : List (String × String)) :
    List Write :=
  let newState : HashMap String String := (∅ : HashMap String String).insertAll kvList
  let puts : List Write := (order.iter newState).map fun p => .put p.1 p.2
  let currentKeys := (puts.foldl write db).rocksDb.iterator.filterMap decodedKey
  puts ++ (currentKeys.filter fun key => !newState.containsKey key).map .delete

theorem handleKv_eq_writes (order : HashOrder String String) (db : Database)
    (kvList : List (String × String)) :
    db.handleKv order kvList = (kvWrites order db kvList).foldl write db := by
  have hskip : ∀ (newState : HashMap String String) (db : Database) (key : String),
      (if newState.containsKey key then db else db.delete key) =
        if (!newState.containsKey key) = true then db.write (.delete key) else db := by
    intro newState db key
    cases newState.containsKey key <;> rfl
  simp only [handleKv, kvWrites, List.foldl_append, List.foldl_map, List.foldl_filter, hskip]
  rfl

/-- Each write of a state transfer brings its key to the value that the whole transfer gives it. -/
theorem kvWrites_within {V : String → Option String → Prop} {kvList : List (String × String)}
    (h : Within V ((∅ : HashMap String String).insertAll kvList).get)
    (order : HashOrder String String) (db : Database) :
    ∀ w ∈ kvWrites order db kvList, w.delta.Within V := by
  intro w hw k v hk
  have hV := h k
  rcases List.mem_append.mp hw with hw | hw
  · obtain ⟨p, hp, rfl⟩ := List.mem_map.mp hw
    have hget := (order.mem_iter _ _ _).mp hp
    simp only [Write.delta, Delta.write, Option.ite_none_right_eq_some, Option.some.injEq] at hk
    obtain ⟨rfl, rfl⟩ := hk
    rwa [hget] at hV
  · obtain ⟨key, hkey, rfl⟩ := List.mem_map.mp hw
    have hgone := (List.mem_filter.mp hkey).2
    simp only [Write.delta, Delta.erase, Option.ite_none_right_eq_some, Option.some.injEq] at hk
    obtain ⟨rfl, rfl⟩ := hk
    rw [Bool.not_eq_true', HashMap.containsKey_eq_false] at hgone
    rwa [hgone] at hV

/-- Writes that are all allowed, however many of them run. -/
theorem within_writes {V : String → Option String → Prop} {ws : List Write}
    (hws : ∀ w ∈ ws, w.delta.Within V) {db : Database} (h : Within V db.get) :
    Within V (ws.foldl write db).get := by
  rw [get_writes]
  refine h.act (Delta.Within.prod fun a ha => ?_)
  obtain ⟨w, hw, rfl⟩ := List.mem_map.mp ha
  exact hws w hw

/-- Equal contents are read as equal lists. -/
theorem getAllKeyValues_inj {A B : Database} (h : A.getAllKeyValues = B.getAllKeyValues) :
    A = B := by
  obtain ⟨la, ha, -, hla⟩ := A.getAllKeyValues_ok
  obtain ⟨lb, hb, -, hlb⟩ := B.getAllKeyValues_ok
  rw [ha, hb] at h
  obtain rfl := Except.ok.inj h
  exact ext_get (funext fun k => Option.ext fun v => by rw [← hla, ← hlb])

end Database
end OmniKV
