import Mathlib.Data.List.Infix

/-!
# Lib.Broadcast

A broadcast channel as the list of everything that has been sent on it, and what one of its
subscribers has taken. A subscriber gets the messages sent after it subscribed, one after the other.
-/

namespace Broadcast

variable {α : Type*}

/-- `taken` is what a subscriber has taken that subscribed when `start` messages had been sent. -/
structure Taken (log : List α) (start : Nat) (taken : List α) : Prop where
  start_le : start ≤ log.length
  taken_prefix : taken <+: log.drop start

/-- What the subscriber will take next, and after that. -/
def ahead (log : List α) (start : Nat) (taken : List α) : List α := log.drop (start + taken.length)

variable {log taken : List α} {start : Nat}

theorem Taken.subscribe (log : List α) : Taken log log.length [] := ⟨le_rfl, List.nil_prefix⟩

theorem Taken.send (h : Taken log start taken) (more : List α) :
    Taken (log ++ more) start taken := by
  refine ⟨h.start_le.trans (by simp), h.taken_prefix.trans ?_⟩
  rw [List.drop_append_of_le_length h.start_le]
  exact List.prefix_append _ _

theorem Taken.append_ahead (h : Taken log start taken) :
    taken ++ ahead log start taken = log.drop start := by
  obtain ⟨rest, hrest⟩ := h.taken_prefix
  rw [ahead, ← List.drop_drop, ← hrest, List.drop_left]

theorem Taken.recv (h : Taken log start taken) {m : α}
    (hm : log[start + taken.length]? = some m) : Taken log start (taken ++ [m]) := by
  refine ⟨h.start_le, ?_⟩
  have hahead : ahead log start taken = m :: log.drop (start + taken.length + 1) := by
    obtain ⟨hlt, hget⟩ := List.getElem?_eq_some_iff.mp hm
    rw [ahead, List.drop_eq_getElem_cons hlt, hget]
  rw [← h.append_ahead, hahead]
  exact ⟨log.drop (start + taken.length + 1), by simp⟩

/-- A subscriber takes a block of what is sent. -/
theorem Taken.block (h : Taken log start taken) : taken <:+: log :=
  h.taken_prefix.isInfix.trans (List.drop_suffix start log).isInfix

/-- A subscriber misses nothing exactly when nothing had been sent before it subscribed. -/
theorem Taken.all_iff (h : Taken log start taken) :
    log = taken ++ ahead log start taken ↔ start = 0 := by
  rw [h.append_ahead]
  constructor
  · intro hlog
    have hlen := congrArg List.length hlog
    rw [List.length_drop] at hlen
    have hle := h.start_le
    omega
  · rintro rfl
    rfl

theorem filter_prefix_of_sorted {key : α → Nat} {l : List α} {k : Nat}
    (h : l.Pairwise fun a b => key a ≤ key b) (hk : ∀ a ∈ l, k ≤ key a) :
    (l.filter fun a => key a = k) <+: l := by
  induction l with
  | nil => exact List.prefix_rfl
  | cons a l ih =>
    obtain ⟨hle, hl⟩ := List.pairwise_cons.mp h
    by_cases ha : key a = k
    · rw [List.filter_cons_of_pos (by simpa using ha), List.prefix_cons_inj]
      exact ih hl fun b hb => hk b (List.mem_cons_of_mem _ hb)
    · have hnone : (a :: l).filter (fun a => key a = k) = [] := by
        rw [List.filter_eq_nil_iff]
        intro b hb
        have hab : key a ≤ key b := (List.mem_cons.mp hb).elim (fun h => h ▸ le_rfl) (hle b)
        have hka := hk a List.mem_cons_self
        simp only [decide_eq_true_eq]
        omega
      rw [hnone]
      exact List.nil_prefix

/-- Of a list sorted by a number, the members of one number are a block. -/
theorem filter_infix_of_sorted {key : α → Nat} {l : List α}
    (h : l.Pairwise fun a b => key a ≤ key b) (k : Nat) :
    (l.filter fun a => key a = k) <:+: l := by
  induction l with
  | nil => exact List.infix_rfl
  | cons a l ih =>
    obtain ⟨hle, hl⟩ := List.pairwise_cons.mp h
    by_cases ha : key a = k
    · refine (filter_prefix_of_sorted h fun b hb => ?_).isInfix
      exact (List.mem_cons.mp hb).elim (fun h => h ▸ ha.ge) fun hb => ha ▸ hle b hb
    · rw [List.filter_cons_of_neg (by simpa using ha)]
      exact (ih hl).trans (List.suffix_cons a l).isInfix

end Broadcast
