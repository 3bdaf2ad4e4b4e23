import OmniKV.Lib.Decimal

/-!
# Addresses

The addresses at which a node reaches the network actor (`network.rs`). A port is two PIDs in decimal
behind `80`, without a separator, so it does not say where the first one ends: `1` to `11` and `11` to
`1` are both `80111`.

`addresses_iff` says which links have an address of their own. In clusters of `1` to `n` all do up to
`n = 10`, and from then on no longer (`upTo_iff`).
-/

namespace OmniKV

open Decimal

/-- What `PID` admits: a number of 64 bits other than 0. -/
structure Pid where
  val : Nat
  pos : 0 < val
  lt : val < 2 ^ 64
  deriving DecidableEq

theorem Pid.ext {p q : Pid} (h : p.val = q.val) : p = q := by
  cases p
  cases q
  cases h
  rfl

def getMyApiAddr (myPid : Pid) : String :=
  "net.default.svc.cluster.local:800" ++ toString myPid.val

def getPeerAddr (myPid receiverPid : Pid) : String :=
  "net.default.svc.cluster.local:80" ++ toString myPid.val ++ toString receiverPid.val

theorem toList_getMyApiAddr (p : Pid) :
    (getMyApiAddr p).toList =
      "net.default.svc.cluster.local:80".toList ++ '0' :: Nat.toDigits 10 p.val := by
  have hport : "net.default.svc.cluster.local:800".toList =
      "net.default.svc.cluster.local:80".toList ++ ['0'] := by simp
  have hall : (getMyApiAddr p).toList =
      "net.default.svc.cluster.local:800".toList ++ Nat.toDigits 10 p.val :=
    toList_append_toString _ _
  rw [hall, hport, List.append_assoc]
  exact rfl

theorem toList_getPeerAddr (a b : Pid) :
    (getPeerAddr a b).toList = "net.default.svc.cluster.local:80".toList ++
      (Nat.toDigits 10 a.val ++ Nat.toDigits 10 b.val) := by
  have hall : (getPeerAddr a b).toList =
      ("net.default.svc.cluster.local:80" ++ toString a.val).toList ++ Nat.toDigits 10 b.val :=
    toList_append_toString _ _
  rw [hall, toList_append_toString, List.append_assoc]

theorem getPeerAddr_eq_iff {a b c d : Pid} : getPeerAddr a b = getPeerAddr c d ↔
    (a = c ∧ b = d) ∨ Moves a.val b.val c.val d.val ∨ Moves c.val d.val a.val b.val := by
  have hpids : (a = c ∧ b = d) ↔ a.val = c.val ∧ b.val = d.val := by
    refine ⟨?_, fun h => ⟨Pid.ext h.1, Pid.ext h.2⟩⟩
    rintro ⟨rfl, rfl⟩
    exact ⟨rfl, rfl⟩
  rw [hpids, ← toDigits_append_eq_iff a.pos b.pos c.pos d.pos, ← String.toList_inj,
    toList_getPeerAddr, toList_getPeerAddr, List.append_cancel_left_eq]

/-- Behind `80`, an API address has a `0` where a peer address has the first digit of a PID. -/
theorem getPeerAddr_ne_api (a b p : Pid) : getPeerAddr a b ≠ getMyApiAddr p := by
  intro h
  rw [← String.toList_inj, toList_getPeerAddr, toList_getMyApiAddr,
    List.append_cancel_left_eq] at h
  have hhead := congrArg List.head? h
  rw [List.head?_append_of_ne_nil _ Nat.toDigits_ne_nil] at hhead
  exact head_toDigits a.pos hhead

/-- Two links have different addresses exactly when neither moves a number from its second PID to its
first to become the other. A link and an API never share an address. -/
theorem addresses_iff (a b c d : Pid) :
    (((a, b) ≠ (c, d) → getPeerAddr a b ≠ getPeerAddr c d) ↔
      ¬Moves a.val b.val c.val d.val ∧ ¬Moves c.val d.val a.val b.val) ∧
    ∀ p, getPeerAddr a b ≠ getMyApiAddr p := by
  refine ⟨?_, getPeerAddr_ne_api a b⟩
  rw [ne_eq, ne_eq, getPeerAddr_eq_iff, Prod.mk.injEq, ← not_or]
  constructor
  · intro h hmoves
    refine h ?_ (.inr hmoves)
    rintro ⟨rfl, rfl⟩
    have hlt := (or_self_iff.mp hmoves).two_digits a.pos
    omega
  · intro h hne hor
    exact hor.elim hne h

theorem getPeerAddr_one_eleven {one eleven : Pid} (hone : one.val = 1) (heleven : eleven.val = 11) :
    getPeerAddr one eleven = getPeerAddr eleven one := by
  have hmoves : Moves 1 11 11 1 := ⟨1, by omega, rfl, rfl⟩
  refine getPeerAddr_eq_iff.mpr (.inr (.inl ?_))
  rwa [hone, heleven]

/-- A cluster of eleven nodes: the address of 1 to 11 is the one of 11 to 1. -/
theorem shared_address :
    ¬∀ a b c d : Pid, a ≠ b → c ≠ d → (a, b) ≠ (c, d) → getPeerAddr a b ≠ getPeerAddr c d := by
  intro h
  have hne := h ⟨1, by omega, by omega⟩ ⟨11, by omega, by omega⟩
    ⟨11, by omega, by omega⟩ ⟨1, by omega, by omega⟩ (by simp) (by simp) (by simp)
  exact hne (getPeerAddr_one_eleven rfl rfl)

/-- The cluster of the PIDs from 1 to `n`, as scaling makes it. -/
theorem upTo_iff (n : Nat) :
    (∀ a b c d : Pid, a.val ≤ n → b.val ≤ n → c.val ≤ n → d.val ≤ n → (a, b) ≠ (c, d) →
      getPeerAddr a b ≠ getPeerAddr c d) ↔ n ≤ 10 := by
  constructor
  · intro h
    by_contra hlarge
    have hone : 1 ≤ n := by omega
    have heleven : 11 ≤ n := by omega
    exact h ⟨1, by omega, by omega⟩ ⟨11, by omega, by omega⟩ ⟨11, by omega, by omega⟩
      ⟨1, by omega, by omega⟩ hone heleven heleven hone (by simp) (getPeerAddr_one_eleven rfl rfl)
  · intro hsmall a b c d ha hb hc hd hne heq
    rcases getPeerAddr_eq_iff.mp heq with ⟨rfl, rfl⟩ | h | h
    · exact hne rfl
    · have hlarge := h.two_digits a.pos
      omega
    · have hlarge := h.two_digits c.pos
      omega

end OmniKV
