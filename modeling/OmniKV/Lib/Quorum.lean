import Mathlib.Data.Finset.Card

/-!
# Lib.Quorum

Majorities of two member sets, one of which contains the other.

Majorities of one set always meet. When members have been added, a majority of the old set can miss
one of the new set as soon as the members outside it make up a majority of the new set on their own.
-/

namespace Quorum

variable {α : Type*}

structure Majority (members quorum : Finset α) : Prop where
  subset : quorum ⊆ members
  card : members.card < 2 * quorum.card

variable [DecidableEq α] {A B : Finset α}

theorem majorities_meet_iff (hA : A.Nonempty) (hAB : A ⊆ B) :
    (∀ Q R, Majority A Q → Majority B R → (Q ∩ R).Nonempty) ↔
      (B.card + 1) / 2 ≤ A.card / 2 + 1 := by
  constructor
  · intro hmeet
    by_contra hlt
    have hpos := hA.card_pos
    obtain ⟨Q, hQ, hcard⟩ := Finset.exists_subset_card_eq (s := A) (n := A.card / 2 + 1) (by omega)
    have hrest : (B \ Q).card = B.card - Q.card := Finset.card_sdiff_of_subset (hQ.trans hAB)
    have hmajority : Majority B (B \ Q) := ⟨Finset.sdiff_subset, by omega⟩
    obtain ⟨x, hx⟩ := hmeet Q (B \ Q) ⟨hQ, by omega⟩ hmajority
    obtain ⟨hxQ, hxB⟩ := Finset.mem_inter.mp hx
    exact (Finset.mem_sdiff.mp hxB).2 hxQ
  · intro hle Q R hQ hR
    have hQcard := hQ.card
    have hRcard := hR.card
    exact Finset.inter_nonempty_of_card_lt_card_add_card (hQ.subset.trans hAB) hR.subset (by omega)

end Quorum
