import Mathlib.Algebra.BigOperators.Group.List.Basic
import Mathlib.Data.Set.Function
import Mathlib.Tactic.Common

/-!
# Lib.Overlay

Updates of a key-value store, as values of their own.

A `Delta` says for each key whether it is left alone, deleted or written. Deltas form a monoid
under "first this, then that", and `Delta.act` runs one on a store. Everything about replaying a
log over a store that is not the one the log was first run on follows from two facts:

* `act_eqOn`  — outside the keys it touches, a delta changes nothing.
* `act_congr` — on the keys it touches, a delta forgets what was there.
-/

namespace Overlay

variable {κ ν : Type*}

abbrev Store (κ ν : Type*) := κ → Option ν

/-- What an update does to each key: `none` leaves it, `some none` deletes it and
`some (some v)` writes `v`. -/
def Delta (κ ν : Type*) := κ → Option (Option ν)

namespace Delta

@[ext] theorem ext {a b : Delta κ ν} (h : ∀ k, a k = b k) : a = b := funext h

/-- `a * b` is `a`, then `b`. -/
instance : Monoid (Delta κ ν) where
  mul a b := fun k => (b k).or (a k)
  one := fun _ => none
  mul_assoc a b c := by
    funext k
    exact Option.or_assoc.symm
  one_mul a := by
    funext k
    exact Option.or_none
  mul_one a := by
    funext k
    exact Option.none_or

theorem one_apply (k : κ) : (1 : Delta κ ν) k = none := rfl

theorem mul_apply (a b : Delta κ ν) (k : κ) : (a * b) k = (b k).or (a k) := rfl

def write [DecidableEq κ] (k : κ) (v : ν) : Delta κ ν :=
  fun k' => if k' = k then some (some v) else none

def erase [DecidableEq κ] (k : κ) : Delta κ ν :=
  fun k' => if k' = k then some none else none

def act (a : Delta κ ν) (m : Store κ ν) : Store κ ν := fun k => (a k).getD (m k)

def touched (a : Delta κ ν) : Set κ := {k | (a k).isSome}

theorem act_one (m : Store κ ν) : (1 : Delta κ ν).act m = m := rfl

theorem act_mul (a b : Delta κ ν) (m : Store κ ν) : (a * b).act m = b.act (a.act m) := by
  funext k
  simp only [act, mul_apply]
  cases b k <;> rfl

theorem act_write [DecidableEq κ] (k : κ) (v : ν) (m : Store κ ν) :
    (write k v).act m = fun k' => if k' = k then some v else m k' := by
  funext k'
  simp only [act, write]
  split <;> rfl

theorem act_erase [DecidableEq κ] (k : κ) (m : Store κ ν) :
    (erase k : Delta κ ν).act m = fun k' => if k' = k then none else m k' := by
  funext k'
  simp only [act, erase]
  split <;> rfl

theorem mem_touched {a : Delta κ ν} {k : κ} : k ∈ a.touched ↔ a k ≠ none := by
  simp [touched, Option.isSome_iff_ne_none]

theorem touched_one : (1 : Delta κ ν).touched = ∅ := by
  ext k
  simp [mem_touched, one_apply]

theorem touched_mul (a b : Delta κ ν) : (a * b).touched = a.touched ∪ b.touched := by
  ext k
  simp only [Set.mem_union, mem_touched, mul_apply]
  cases b k <;> simp

theorem touched_write [DecidableEq κ] (k : κ) (v : ν) : (write k v).touched = {k} := by
  ext k'
  simp [mem_touched, write]

theorem touched_erase [DecidableEq κ] (k : κ) : (erase k : Delta κ ν).touched = {k} := by
  ext k'
  simp [mem_touched, erase]

theorem act_eqOn (a : Delta κ ν) (m : Store κ ν) : Set.EqOn (a.act m) m a.touchedᶜ := by
  intro k hk
  have hnone : a k = none := by simpa [mem_touched] using hk
  simp [act, hnone]

theorem act_eqOn_touched (a : Delta κ ν) (m m' : Store κ ν) :
    Set.EqOn (a.act m) (a.act m') a.touched := by
  intro k hk
  obtain ⟨v, hv⟩ := Option.ne_none_iff_exists'.mp (mem_touched.mp hk)
  simp [act, hv]

theorem act_congr {a : Delta κ ν} {m m' : Store κ ν} (h : Set.EqOn m m' a.touchedᶜ) :
    a.act m = a.act m' := by
  funext k
  by_cases hk : k ∈ a.touched
  · exact act_eqOn_touched a m m' hk
  · rw [act_eqOn a m hk, act_eqOn a m' hk, h hk]

/-- `act_congr` is exact: an update equates two stores only when they agree off its keys. -/
theorem act_eq_act_iff {a : Delta κ ν} {m m' : Store κ ν} :
    a.act m = a.act m' ↔ Set.EqOn m m' a.touchedᶜ := by
  refine ⟨?_, act_congr⟩
  intro h k hk
  rw [← act_eqOn a m hk, ← act_eqOn a m' hk, h]

/-- Replay absorbs: after an update of fewer keys, `b` gives what it gives on its own. -/
theorem act_absorb {a b : Delta κ ν} (h : a.touched ⊆ b.touched) (m : Store κ ν) :
    b.act (a.act m) = b.act m :=
  act_congr ((act_eqOn a m).mono (Set.compl_subset_compl.mpr h))

/-! ## Lists of updates -/

theorem mem_touched_prod {l : List (Delta κ ν)} {k : κ} :
    k ∈ l.prod.touched ↔ ∃ a ∈ l, k ∈ a.touched := by
  induction l with
  | nil => simp [touched_one]
  | cons a l ih => simp [touched_mul, ih]

/-- Updates that stay within `S` leave the rest of the store alone, however many of them run. -/
theorem prod_act_eqOn {l : List (Delta κ ν)} {S : Set κ} (h : ∀ a ∈ l, a.touched ⊆ S)
    (m : Store κ ν) : Set.EqOn (l.prod.act m) m Sᶜ := by
  refine (act_eqOn _ m).mono (Set.compl_subset_compl.mpr fun k hk => ?_)
  obtain ⟨a, ha, hka⟩ := mem_touched_prod.mp hk
  exact h a ha hka

/-- Writing the entries of a map, each key once and in any order, writes the map. -/
theorem prod_write_apply [DecidableEq κ] {l : List (κ × ν)} (hl : (l.map Prod.fst).Nodup) {k : κ}
    {f : Option ν} (hf : ∀ v, (k, v) ∈ l ↔ f = some v) :
    (l.map fun p => write p.1 p.2).prod k = f.map some := by
  induction l generalizing f with
  | nil =>
    have hnone : f = none := Option.eq_none_iff_forall_ne_some.mpr fun v h => by simpa [h] using hf v
    simp [hnone, one_apply]
  | cons p l ih =>
    obtain ⟨k', v'⟩ := p
    simp only [List.map_cons, List.nodup_cons, List.mem_map, not_exists, not_and] at hl
    rw [List.map_cons, List.prod_cons, mul_apply]
    by_cases hk : k = k'
    · -- the head writes `k`, and no later entry does
      subst hk
      have hrest : ∀ v, (k, v) ∈ l ↔ (none : Option ν) = some v := fun v => by
        simpa using fun hm => hl.1 (k, v) hm rfl
      have hhead : f = some v' := (hf v').mp (by simp)
      rw [ih hl.2 hrest, hhead]
      simp [write]
    · have hrest : ∀ v, (k, v) ∈ l ↔ f = some v := fun v => by
        rw [← hf v]
        simp [hk]
      rw [ih hl.2 hrest]
      simp [write, hk]

theorem prod_erase_apply [DecidableEq κ] (l : List κ) (k : κ) :
    (l.map (erase : κ → Delta κ ν)).prod k = if k ∈ l then some none else none := by
  induction l with
  | nil => rfl
  | cons k' l ih =>
    rw [List.map_cons, List.prod_cons, mul_apply, ih]
    by_cases hl : k ∈ l
    · simp [hl]
    · simp [hl, erase]

/-! ## Allowed values

`V k v` says that `v` may stand for the key `k`, and `V k none` that `k` may be absent. -/

theorem act_of_eq_some {a : Delta κ ν} {k : κ} {v : Option ν} (h : a k = some v)
    (m : Store κ ν) : a.act m k = v := by
  simp [act, h]

/-- Whatever `a` does to a key is allowed. -/
def Within (V : κ → Option ν → Prop) (a : Delta κ ν) : Prop := ∀ k v, a k = some v → V k v

variable {V : κ → Option ν → Prop}

theorem Within.prod {l : List (Delta κ ν)} (h : ∀ a ∈ l, a.Within V) : l.prod.Within V := by
  induction l with
  | nil =>
    intro k v hk
    cases hk
  | cons a l ih =>
    intro k v hk
    rw [List.prod_cons, mul_apply, Option.or_eq_some_iff] at hk
    rcases hk with hk | ⟨-, hk⟩
    · exact ih (fun b hb => h b (List.mem_cons_of_mem _ hb)) k v hk
    · exact h a List.mem_cons_self k v hk

end Delta

/-- Every key of the store, present or absent, stands at an allowed value. -/
def Within (V : κ → Option ν → Prop) (m : Store κ ν) : Prop := ∀ k, V k (m k)

theorem Within.mono {V V' : κ → Option ν → Prop} {m : Store κ ν} (h : Within V m)
    (hV : ∀ k v, V k v → V' k v) : Within V' m := fun k => hV k _ (h k)

theorem Within.act {V : κ → Option ν → Prop} {a : Delta κ ν} {m : Store κ ν} (h : Within V m)
    (ha : a.Within V) : Within V (a.act m) := by
  intro k
  cases hk : a k with
  | none =>
    rw [Delta.act, hk]
    exact h k
  | some v =>
    rw [Delta.act_of_eq_some hk]
    exact ha k v hk

end Overlay
