import Mathlib.Order.Interval.Finset.Nat
import OmniKV.Lib.Quorum
import OmniKV.Server

/-!
# Membership

The members of configuration 1. Every start of a process computes them again from the replica count it
gets, and always calls the result configuration 1. Two processes started at different scales can so run
configuration 1 with different members; `initial_quorums_meet_iff` says at which scales their
majorities still meet.
-/

namespace OmniKV
namespace Membership

open Quorum

/-- Configurations of the same number have majorities that meet. -/
def QuorumsMeet (c c' : ClusterConfig) : Prop :=
  c.configurationId = c'.configurationId → ∀ Q R : Finset Nat,
    Majority c.nodes.toFinset Q → Majority c'.nodes.toFinset R → (Q ∩ R).Nonempty

theorem toFinset_replicaList (n : Nat) : (replicaList n).toFinset = Finset.Icc 1 n := by
  ext i
  simp only [replicaList, List.mem_toFinset, List.mem_range'_1, Finset.mem_Icc]
  omega

theorem three_le_initialNumReplicas (api : Except QueryError StatefulSet) :
    3 ≤ initialNumReplicas api := by
  unfold initialNumReplicas
  split
  · split <;> omega
  · exact le_rfl

theorem quorumsMeet_replicaList {m n : Nat} (hm : 0 < m) (hmn : m ≤ n) :
    (∀ Q R : Finset Nat, Majority (replicaList m).toFinset Q → Majority (replicaList n).toFinset R →
      (Q ∩ R).Nonempty) ↔ (n + 1) / 2 ≤ m / 2 + 1 := by
  have hne : (Finset.Icc 1 m).Nonempty := Finset.nonempty_Icc.mpr hm
  rw [toFinset_replicaList, toFinset_replicaList,
    majorities_meet_iff hne (Finset.Icc_subset_Icc_right hmn), Nat.card_Icc, Nat.card_Icc,
    Nat.add_sub_cancel, Nat.add_sub_cancel]

/-- The majorities of two processes' first configurations meet exactly when half the larger replica
count, rounded up, is at most one more than half the smaller, rounded down. -/
theorem initial_quorums_meet_iff (api api' : Except QueryError StatefulSet) :
    QuorumsMeet (initialClusterConfig api) (initialClusterConfig api') ↔
      (max (initialNumReplicas api) (initialNumReplicas api') + 1) / 2 ≤
        min (initialNumReplicas api) (initialNumReplicas api') / 2 + 1 := by
  have hpos := three_le_initialNumReplicas api
  have hpos' := three_le_initialNumReplicas api'
  rcases le_total (initialNumReplicas api) (initialNumReplicas api') with hle | hle
  · rw [max_eq_right hle, min_eq_left hle, ← quorumsMeet_replicaList (by omega) hle]
    exact forall_prop_of_true rfl
  · rw [max_eq_left hle, min_eq_right hle, ← quorumsMeet_replicaList (by omega) hle]
    refine (forall_prop_of_true rfl).trans ?_
    constructor
    · intro h Q R hQ hR
      rw [Finset.inter_comm]
      exact h R Q hR hQ
    · intro h Q R hQ hR
      rw [Finset.inter_comm]
      exact h R Q hR hQ

/-- A process started when the query fails has members 1 to 3; one started at five replicas has
members 1 to 5, of which 3 to 5 are a majority. -/
theorem quorums_part : ¬QuorumsMeet (initialClusterConfig (.error .client))
    (initialClusterConfig (.ok { spec := some { replicas := some 5 } })) := by
  intro hmeet
  have hQ : Majority (initialClusterConfig (.error .client)).nodes.toFinset {1, 2} :=
    ⟨by decide, by decide⟩
  have hR : Majority (initialClusterConfig
      (.ok { spec := some { replicas := some 5 } })).nodes.toFinset {3, 4, 5} :=
    ⟨by decide, by decide⟩
  have hne := hmeet rfl {1, 2} {3, 4, 5} hQ hR
  revert hne
  decide

end Membership
end OmniKV
