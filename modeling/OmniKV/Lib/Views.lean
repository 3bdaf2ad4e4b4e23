import Mathlib.Data.List.Infix
import Mathlib.Logic.IsEmpty.Basic
import OmniKV.Lib.Machine

/-!
# Lib.Views

A store of several replicas, seen from its clients.

Each replica shows the beginning of one sequence of commands. What it shows grows, at its own pace, and
a read is answered from it. `serial_of_run` says what the answers have to do with each other: there is
one order of the commands, each answer is taken at a place of it, and the answers of one replica are
taken at places further and further on. This is sequential consistency of the reads.
-/

/-- What the replicas show, of any two the one a beginning of what the other does. -/
structure Views (ι α : Type*) where
  view : ι → List α
  chain : ∀ p q, view p <+: view q ∨ view q <+: view p

namespace Views

variable {ι α κ ν : Type*}

structure Answer (ι κ ν : Type*) where
  replica : ι
  key : κ
  value : ν

inductive Event (ι κ ν : Type*) where
  | grow (p : ι)
  | read (a : Answer ι κ ν)

/-- `eval` is the value of a key after a list of commands. -/
inductive Step (eval : List α → κ → ν) : Views ι α → Event ι κ ν → Views ι α → Prop where
  | grow {s s' : Views ι α} {p : ι} : s.view p <+: s'.view p → (∀ q, q ≠ p → s'.view q = s.view q) →
      Step eval s (.grow p) s'
  | read {s : Views ι α} (p : ι) (key : κ) : Step eval s (.read ⟨p, key, eval (s.view p) key⟩) s

def machine (ι : Type*) (eval : List α → κ → ν) : Machine (Views ι α) (Event ι κ ν) where
  init s := ∀ p, s.view p = []
  step := Step eval

def answerOf (t : Machine.Transition (Views ι α) (Event ι κ ν)) : Option (Answer ι κ ν) :=
  match t.event with
  | .grow _ => none
  | .read a => some a

/-- The answers of a run, oldest first. -/
def answers (tr : List (Machine.Transition (Views ι α) (Event ι κ ν))) : List (Answer ι κ ν) :=
  tr.filterMap answerOf

/-- The answers are those of one replica that reads at the places `place` of `order`, and goes back in it
only from the answer of one replica to that of another. -/
structure Serial (eval : List α → κ → ν) (order : List α) (answers : List (Answer ι κ ν))
    (place : Nat → Nat) : Prop where
  value : ∀ i a, answers[i]? = some a → a.value = eval (order.take (place i)) a.key
  forward : ∀ i j a b, i ≤ j → answers[i]? = some a → answers[j]? = some b →
    a.replica = b.replica → place i ≤ place j

theorem eq_of_view {s s' : Views ι α} (h : ∀ p, s.view p = s'.view p) : s = s' := by
  cases s
  cases s'
  congr
  exact funext h

variable {eval : List α → κ → ν} {s s' : Views ι α} {e : Event ι κ ν}
  {tr : List (Machine.Transition (Views ι α) (Event ι κ ν))}

theorem answers_snoc (t : Machine.Transition (Views ι α) (Event ι κ ν)) :
    answers (tr ++ [t]) = answers tr ++ (answerOf t).toList := by
  rw [answers, List.filterMap_append]
  cases h : answerOf t <;> simp [answers, h]

/-- What a replica shows is not taken back. -/
theorem Step.view_prefix (hs : Step eval s e s') (p : ι) : s.view p <+: s'.view p := by
  cases hs with
  | @grow _ q hgrow hrest =>
    by_cases hp : p = q
    · subst hp
      exact hgrow
    · rw [hrest p hp]
  | read _ _ => exact List.prefix_rfl

/-- One of the replicas shows all that is shown. -/
theorem exists_longest [Nonempty ι] (hrun : (machine ι eval).Run tr s) :
    ∃ q, ∀ p, s.view p <+: s.view q := by
  induction hrun with
  | nil h =>
    obtain ⟨q⟩ := ‹Nonempty ι›
    refine ⟨q, fun p => ?_⟩
    rw [h p]
    exact List.nil_prefix
  | @snoc tr s s' e _ hs ih =>
    obtain ⟨q, hq⟩ := ih
    cases hs with
    | read _ _ => exact ⟨q, hq⟩
    | @grow _ p hgrow hrest =>
      have hother : ∀ r, r ≠ p → s'.view r <+: s'.view q := by
        intro r hr
        rw [hrest r hr]
        by_cases hqp : q = p
        · subst hqp
          exact (hq r).trans hgrow
        · rw [hrest q hqp]
          exact hq r
      rcases s'.chain p q with hpq | hqp
      · refine ⟨q, fun r => ?_⟩
        by_cases hr : r = p
        · rw [hr]
          exact hpq
        · exact hother r hr
      · refine ⟨p, fun r => ?_⟩
        by_cases hr : r = p
        · rw [hr]
        · exact (hother r hr).trans hqp

/-- `place` is a place for each answer at which the replica that gives it has been. -/
structure Placed (eval : List α → κ → ν) (s : Views ι α) (answers : List (Answer ι κ ν))
    (place : Nat → Nat) : Prop where
  value : ∀ i a, answers[i]? = some a → a.value = eval ((s.view a.replica).take (place i)) a.key
  le : ∀ i a, answers[i]? = some a → place i ≤ (s.view a.replica).length
  forward : ∀ i j a b, i ≤ j → answers[i]? = some a → answers[j]? = some b →
    a.replica = b.replica → place i ≤ place j

theorem take_eq_of_le {l l' : List α} (h : l <+: l') {k : Nat} (hk : k ≤ l.length) :
    l'.take k = l.take k := by
  obtain ⟨more, rfl⟩ := h
  exact List.take_append_of_le_length hk

theorem Placed.grow {answers : List (Answer ι κ ν)} {place : Nat → Nat}
    (h : Placed eval s answers place) (hgrow : ∀ p, s.view p <+: s'.view p) :
    Placed eval s' answers place where
  value i a ha := by
    rw [take_eq_of_le (hgrow _) (h.le i a ha)]
    exact h.value i a ha
  le i a ha := (h.le i a ha).trans (hgrow _).length_le
  forward := h.forward

theorem getElem?_snoc {β : Type*} {l : List β} {b x : β} {i : Nat}
    (h : (l ++ [b])[i]? = some x) : l[i]? = some x ∧ i < l.length ∨ i = l.length ∧ x = b := by
  by_cases hi : i < l.length
  · rw [List.getElem?_append_left hi] at h
    exact Or.inl ⟨h, hi⟩
  · have hlt := (List.getElem?_eq_some_iff.mp h).1
    have hi' : i = l.length := by
      rw [List.length_append, List.length_singleton] at hlt
      omega
    subst hi'
    simp at h
    exact Or.inr ⟨rfl, h.symm⟩

/-- A read is placed at the end of what its replica shows. -/
theorem Placed.read {answers : List (Answer ι κ ν)} {place : Nat → Nat}
    (h : Placed eval s answers place) (p : ι) (key : κ) :
    Placed eval s (answers ++ [⟨p, key, eval (s.view p) key⟩])
      (fun i => if i < answers.length then place i else (s.view p).length) where
  value i a ha := by
    rcases getElem?_snoc ha with ⟨hold, hi⟩ | ⟨rfl, rfl⟩
    · rw [if_pos hi]
      exact h.value i a hold
    · rw [if_neg (Nat.lt_irrefl _), List.take_length]
  le i a ha := by
    rcases getElem?_snoc ha with ⟨hold, hi⟩ | ⟨rfl, rfl⟩
    · rw [if_pos hi]
      exact h.le i a hold
    · rw [if_neg (Nat.lt_irrefl _)]
  forward i j a b hij ha hb hsame := by
    rcases getElem?_snoc hb with ⟨hold, hj⟩ | ⟨rfl, rfl⟩
    · rw [List.getElem?_append_left (Nat.lt_of_le_of_lt hij hj)] at ha
      rw [if_pos (Nat.lt_of_le_of_lt hij hj), if_pos hj]
      exact h.forward i j a b hij ha hold hsame
    · rw [if_neg (Nat.lt_irrefl _)]
      rcases getElem?_snoc ha with ⟨hold, hi⟩ | ⟨rfl, rfl⟩
      · rw [if_pos hi, ← show a.replica = p from hsame]
        exact h.le i a hold
      · rw [if_neg (Nat.lt_irrefl _)]

theorem exists_placed (hrun : (machine ι eval).Run tr s) :
    ∃ place, Placed eval s (answers tr) place := by
  induction hrun with
  | nil _ => exact ⟨fun _ => 0, by constructor <;> simp [answers]⟩
  | snoc _ hs ih =>
    obtain ⟨place, h⟩ := ih
    rw [answers_snoc]
    have hgrow := hs.view_prefix
    cases hs with
    | grow _ _ =>
      refine ⟨place, ?_⟩
      rw [answerOf, Option.toList_none, List.append_nil]
      exact h.grow hgrow
    | read p key => exact ⟨_, h.read p key⟩

/-- In every run there is one order of the commands, of which every replica shows a beginning, and in
which the answers are serial. -/
theorem serial_of_run (hrun : (machine ι eval).Run tr s) : ∃ order place,
    (∀ p, s.view p <+: order) ∧ (order = [] ∨ ∃ q, order = s.view q) ∧
    Serial eval order (answers tr) place := by
  obtain ⟨place, h⟩ := exists_placed hrun
  rcases isEmpty_or_nonempty ι with hempty | hne
  · exact ⟨[], place, fun p => hempty.elim p, Or.inl rfl, fun i a _ => hempty.elim a.replica, h.forward⟩
  · obtain ⟨q, hq⟩ := exists_longest hrun
    refine ⟨s.view q, place, hq, Or.inr ⟨q, rfl⟩, fun i a ha => ?_, h.forward⟩
    rw [take_eq_of_le (hq _) (h.le i a ha)]
    exact h.value i a ha

end Views
