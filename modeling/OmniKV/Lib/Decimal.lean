import Mathlib.Algebra.Group.Nat.Defs
import Mathlib.Data.List.Basic

/-!
# Lib.Decimal

Numerals in base ten: what two of them joined without a separator say, and a reader with a bound.

Two pairs of positive numbers can be joined to the same digits only if a number has moved from the
front of the one part to the end of the other (`toDigits_append_eq_iff`).
-/

namespace Decimal

theorem digitChar_toNat {c : Char} (h : c.isDigit) :
    c.toNat - 48 < 10 ∧ (c.toNat - 48).digitChar = c := by
  have hrange : 48 ≤ c.toNat ∧ c.toNat ≤ 57 := Char.isDigit_iff_toNat.mp h
  have hlt : c.toNat - 48 < 10 := by omega
  refine ⟨hlt, Char.toNat_inj.mp ?_⟩
  rw [Nat.toNat_digitChar_of_lt_ten hlt]
  omega

theorem isDigit_of_mem {n : Nat} {c : Char} (h : c ∈ Nat.toDigits 10 n) : c.isDigit :=
  Nat.isDigit_of_mem_toDigits (by omega) (by omega) h

theorem toList_toString (n : Nat) : (toString n).toList = Nat.toDigits 10 n := by
  rw [Nat.toString_eq_repr, Nat.toList_repr]

theorem toList_append_toString (s : String) (n : Nat) :
    (s ++ toString n).toList = s.toList ++ Nat.toDigits 10 n := by
  rw [String.toList_append, toList_toString]

theorem toDigits_inj {m n : Nat} : Nat.toDigits 10 m = Nat.toDigits 10 n ↔ m = n := by
  refine ⟨fun h => ?_, fun h => by rw [h]⟩
  have hvalue := congrArg (fun l => Nat.ofDigitChars 10 l 0) h
  simpa using hvalue

theorem le_ofDigitChars (l : List Char) (acc : Nat) : acc ≤ Nat.ofDigitChars 10 l acc := by
  rw [Nat.ofDigitChars_eq_ofDigitChars_zero]
  have hpos : 0 < 10 ^ l.length := Nat.pow_pos (by omega)
  exact Nat.le_trans (Nat.le_mul_of_pos_left acc hpos) (Nat.le_add_right _ _)

/-! ## Joining numerals -/

/-- Digits behind the numeral of a positive number are read on as one numeral. -/
theorem toDigits_append_digits {l : List Char} (h : ∀ c ∈ l, c.isDigit) {acc : Nat}
    (hacc : 0 < acc) :
    Nat.toDigits 10 acc ++ l = Nat.toDigits 10 (Nat.ofDigitChars 10 l acc) := by
  induction l generalizing acc with
  | nil => simp
  | cons c l ih =>
    obtain ⟨hlt, hchar⟩ := digitChar_toNat (h c List.mem_cons_self)
    have hdigit := Nat.toDigits_append_toDigits (b := 10) (by omega) hacc hlt
    rw [Nat.toDigits_of_lt_base hlt, hchar] at hdigit
    rw [List.append_cons, hdigit, Nat.ofDigitChars_cons]
    exact ih (fun c hc => h c (List.mem_cons_of_mem _ hc)) (by omega)

theorem exists_toDigits {l : List Char} (h : ∀ c ∈ l, c.isDigit) (hne : l ≠ [])
    (hzero : l.head? ≠ some '0') : ∃ n, 0 < n ∧ Nat.toDigits 10 n = l := by
  cases l with
  | nil => exact absurd rfl hne
  | cons c l =>
    obtain ⟨hlt, hchar⟩ := digitChar_toNat (h c List.mem_cons_self)
    have hpos : 0 < c.toNat - 48 := by
      refine Nat.pos_of_ne_zero fun hc => hzero ?_
      rw [hc] at hchar
      rw [← hchar]
      rfl
    refine ⟨Nat.ofDigitChars 10 l (c.toNat - 48), Nat.lt_of_lt_of_le hpos (le_ofDigitChars _ _), ?_⟩
    rw [← toDigits_append_digits (fun c hc => h c (List.mem_cons_of_mem _ hc)) hpos,
      Nat.toDigits_of_lt_base hlt, hchar]
    rfl

theorem head_toDigits {n : Nat} (hn : 0 < n) : (Nat.toDigits 10 n).head? ≠ some '0' := by
  induction n using Nat.strongRecOn with
  | ind n ih =>
    by_cases hlt : n < 10
    · rw [Nat.toDigits_of_lt_base hlt]
      simp
      omega
    · rw [Nat.toDigits_of_base_le (by omega) (by omega),
        List.head?_append_of_ne_nil _ Nat.toDigits_ne_nil]
      exact ih (n / 10) (by omega) (by omega)

/-- The number whose numeral is that of `a`, and then that of `w`. -/
def followedBy (a w : Nat) : Nat := 10 ^ (Nat.toDigits 10 w).length * a + w

theorem toDigits_followedBy {a w : Nat} (ha : 0 < a) :
    Nat.toDigits 10 (followedBy a w) = Nat.toDigits 10 a ++ Nat.toDigits 10 w := by
  rw [toDigits_append_digits (fun c hc => isDigit_of_mem hc) ha,
    Nat.ofDigitChars_eq_ofDigitChars_zero, Nat.ofDigitChars_ten_toDigits, followedBy]

/-- `b` moves a number from its front to the end of `a`, which makes them `d` and `c`. -/
def Moves (a b c d : Nat) : Prop := ∃ w, 0 < w ∧ c = followedBy a w ∧ b = followedBy w d

theorem Moves.two_digits {a b c d : Nat} (h : Moves a b c d) (ha : 0 < a) : a < c ∧ 10 < c := by
  obtain ⟨w, hw, rfl, -⟩ := h
  have hlen : 10 ≤ 10 ^ (Nat.toDigits 10 w).length := Nat.le_self_pow (by simp) 10
  have hle : 10 * a ≤ 10 ^ (Nat.toDigits 10 w).length * a := Nat.mul_le_mul_right a hlen
  rw [followedBy]
  omega

theorem Moves.toDigits_eq {a b c d : Nat} (h : Moves a b c d) (ha : 0 < a) :
    Nat.toDigits 10 a ++ Nat.toDigits 10 b = Nat.toDigits 10 c ++ Nat.toDigits 10 d := by
  obtain ⟨w, hw, rfl, rfl⟩ := h
  rw [toDigits_followedBy ha, toDigits_followedBy hw, List.append_assoc]

theorem Moves.of_toDigits {a b c d : Nat} {w : List Char} (hw : w ≠ []) (ha : 0 < a) (hb : 0 < b)
    (hc : Nat.toDigits 10 c = Nat.toDigits 10 a ++ w)
    (hd : Nat.toDigits 10 b = w ++ Nat.toDigits 10 d) : Moves a b c d := by
  have hdigits : ∀ x ∈ w, x.isDigit := by
    intro x hx
    refine isDigit_of_mem (n := b) ?_
    rw [hd]
    exact List.mem_append_left _ hx
  have hhead : w.head? ≠ some '0' := by
    have hb := head_toDigits hb
    rwa [hd, List.head?_append_of_ne_nil _ hw] at hb
  obtain ⟨n, hn, rfl⟩ := exists_toDigits hdigits hw hhead
  refine ⟨n, hn, toDigits_inj.mp ?_, toDigits_inj.mp ?_⟩
  · rw [hc, toDigits_followedBy ha]
  · rw [hd, toDigits_followedBy hn]

theorem toDigits_append_eq_iff {a b c d : Nat} (ha : 0 < a) (hb : 0 < b) (hc : 0 < c)
    (hd : 0 < d) :
    Nat.toDigits 10 a ++ Nat.toDigits 10 b = Nat.toDigits 10 c ++ Nat.toDigits 10 d ↔
      (a = c ∧ b = d) ∨ Moves a b c d ∨ Moves c d a b := by
  constructor
  · intro h
    rcases List.append_eq_append_iff.mp h with ⟨w, hcw, hbw⟩ | ⟨w, haw, hdw⟩
    · rcases eq_or_ne w [] with rfl | hw
      · rw [List.append_nil, toDigits_inj] at hcw
        rw [List.nil_append, toDigits_inj] at hbw
        exact .inl ⟨hcw.symm, hbw⟩
      · exact .inr (.inl (.of_toDigits hw ha hb hcw hbw))
    · rcases eq_or_ne w [] with rfl | hw
      · rw [List.append_nil, toDigits_inj] at haw
        rw [List.nil_append, toDigits_inj] at hdw
        exact .inl ⟨haw, hdw.symm⟩
      · exact .inr (.inr (.of_toDigits hw hc hd haw hdw))
  · rintro (⟨rfl, rfl⟩ | h | h)
    · rfl
    · exact h.toDigits_eq ha
    · exact (h.toDigits_eq hc).symm

/-! ## Reading -/

/-- One digit of a number that must stay below a bound. -/
def readDigit (bound acc : Nat) (c : Char) : Option Nat :=
  if c.isDigit ∧ 10 * acc + (c.toNat - '0'.toNat) < bound then
    some (10 * acc + (c.toNat - '0'.toNat))
  else
    none

def readDigits (bound : Nat) (l : List Char) : Option Nat := l.foldlM (readDigit bound) 0

theorem foldlM_readDigit {bound acc n : Nat} {l : List Char} (hacc : acc < bound) :
    l.foldlM (readDigit bound) acc = some n ↔
      (∀ c ∈ l, c.isDigit) ∧ Nat.ofDigitChars 10 l acc = n ∧ n < bound := by
  induction l generalizing acc with
  | nil =>
    simp only [List.foldlM_nil, Option.pure_def, Option.some.injEq, List.not_mem_nil,
      Nat.ofDigitChars_nil, false_implies, implies_true, true_and]
    exact ⟨fun h => ⟨h, h ▸ hacc⟩, And.left⟩
  | cons c l ih =>
    rw [List.foldlM_cons, Nat.ofDigitChars_cons, Option.bind_eq_bind, Option.bind_eq_some_iff]
    simp only [readDigit, Option.ite_none_right_eq_some, Option.some.injEq]
    constructor
    · rintro ⟨acc', ⟨⟨hc, hlt⟩, rfl⟩, hl⟩
      obtain ⟨hdigits, hvalue, hn⟩ := (ih hlt).mp hl
      exact ⟨List.forall_mem_cons.mpr ⟨hc, hdigits⟩, hvalue, hn⟩
    · rintro ⟨hdigits, hvalue, hn⟩
      have hlt : 10 * acc + (c.toNat - '0'.toNat) < bound := by
        have hle := le_ofDigitChars l (10 * acc + (c.toNat - '0'.toNat))
        omega
      obtain ⟨hc, hdigits⟩ := List.forall_mem_cons.mp hdigits
      exact ⟨_, ⟨⟨hc, hlt⟩, rfl⟩, (ih hlt).mpr ⟨hdigits, hvalue, hn⟩⟩

theorem readDigits_eq_some {bound n : Nat} {l : List Char} (hbound : 0 < bound) :
    readDigits bound l = some n ↔
      (∀ c ∈ l, c.isDigit) ∧ Nat.ofDigitChars 10 l 0 = n ∧ n < bound :=
  foldlM_readDigit hbound

end Decimal
