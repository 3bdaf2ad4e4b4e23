import Mathlib.Data.List.Infix
import Mathlib.Data.List.Nodup
import Mathlib.Data.List.Perm.Subperm

/-!
# Lib.Conveyance

Transport that loses messages but does nothing worse to them.

Sources hold the messages sent, destinations those received, and `origin d i` says which message the
`i`-th one of `d` is: its source, and its place there. `Conveys` says that a message received is one
that was sent, and that none is received twice; `InOrder` that messages of one source come in the order
they were sent.

Two stages of transport make one (`Conveys.trans`). Messages that take different links in the middle can
overtake each other, so `InOrder` is not kept. It is by readers that stop early (`InOrder.read_by`).
Whatever the order, what a source's destinations have received is a selection of what it has sent
(`Conveys.subperm`).
-/

structure Conveys {κ ι μ : Type*} (sent : κ → List μ) (received : ι → List μ)
    (origin : ι → Nat → κ × Nat) : Prop where
  message : ∀ d i, i < (received d).length →
    (received d)[i]? = (sent (origin d i).1)[(origin d i).2]?
  once : ∀ d d' i i', i < (received d).length → i' < (received d').length →
    origin d i = origin d' i' → d = d' ∧ i = i'

def InOrder {κ ι μ : Type*} (received : ι → List μ) (origin : ι → Nat → κ × Nat) : Prop :=
  ∀ d i j, i < j → j < (received d).length → (origin d i).1 = (origin d j).1 →
    (origin d i).2 < (origin d j).2

section Conveyance

variable {κ ι ι' μ : Type*} {sent : κ → List μ} {received : ι → List μ}
  {received' : ι' → List μ} {origin : ι → Nat → κ × Nat} {origin' : ι' → Nat → ι × Nat}

theorem Conveys.place_lt (h : Conveys sent received origin) {d : ι} {i : Nat}
    (hi : i < (received d).length) : (origin d i).2 < (sent (origin d i).1).length := by
  have hmessage := h.message d i hi
  rw [List.getElem?_eq_getElem hi] at hmessage
  exact (List.getElem?_eq_some_iff.mp hmessage.symm).1

/-- Readers of the destinations, each of its own, that stop early. -/
theorem Conveys.read_by (h : Conveys sent received origin) {g : ι' → ι}
    (hle : ∀ y, received' y ≠ [] → received' y <+: received (g y))
    (hinj : ∀ y y', received' y ≠ [] → received' y' ≠ [] → g y = g y' → y = y') :
    Conveys sent received' fun y i => origin (g y) i where
  message y i hi := by
    have hpre := hle y (List.ne_nil_of_length_pos (Nat.zero_lt_of_lt hi))
    have hi' := hi.trans_le hpre.length_le
    rw [← h.message (g y) i hi', List.getElem?_eq_getElem hi, List.getElem?_eq_getElem hi',
      hpre.getElem hi]
  once y y' i i' hi hi' heq := by
    have hne := List.ne_nil_of_length_pos (Nat.zero_lt_of_lt hi)
    have hne' := List.ne_nil_of_length_pos (Nat.zero_lt_of_lt hi')
    obtain ⟨hg, hplace⟩ := h.once (g y) (g y') i i' (hi.trans_le (hle y hne).length_le)
      (hi'.trans_le (hle y' hne').length_le) heq
    exact ⟨hinj y y' hne hne' hg, hplace⟩

theorem InOrder.read_by (h : InOrder received origin) {g : ι' → ι}
    (hle : ∀ y, received' y <+: received (g y)) :
    InOrder received' fun y i => origin (g y) i :=
  fun y i j hij hj => h (g y) i j hij (hj.trans_le (hle y).length_le)

/-- The sources under other names. -/
theorem Conveys.relabel {κ' : Type*} {sent : κ' → List μ} {f : κ → κ'}
    (h : Conveys (fun c => sent (f c)) received origin)
    (hinj : ∀ d d' i i', i < (received d).length → i' < (received d').length →
      f (origin d i).1 = f (origin d' i').1 → (origin d i).1 = (origin d' i').1) :
    Conveys sent received fun d i => (f (origin d i).1, (origin d i).2) where
  message := h.message
  once d d' i i' hi hi' heq := by
    obtain ⟨hsource, hplace⟩ := Prod.mk.inj heq
    exact h.once d d' i i' hi hi' (Prod.ext (hinj d d' i i' hi hi' hsource) hplace)

theorem Conveys.trans (h : Conveys sent received origin) (h' : Conveys received received' origin') :
    Conveys sent received' (fun d i => origin (origin' d i).1 (origin' d i).2) where
  message d i hi := by
    rw [h'.message d i hi]
    exact h.message _ _ (h'.place_lt hi)
  once d d' i i' hi hi' heq := by
    obtain ⟨hlink, hplace⟩ := h.once _ _ _ _ (h'.place_lt hi) (h'.place_lt hi') heq
    exact h'.once d d' i i' hi hi' (Prod.ext hlink hplace)

/-- What stands at different places of a list is some of it. -/
theorem subperm_of_places {l l' : List μ} {places : List Nat} (hnodup : places.Nodup)
    (h : places.map (fun j => l'[j]?) = l.map some) : l.Subperm l' := by
  have hread : ∀ {l : List μ} {places : List Nat}, places.map (fun j => l'[j]?) = l.map some →
      places.filterMap (fun j => l'[j]?) = l := by
    intro l places h
    have hid := congrArg (List.filterMap id) h
    rwa [List.filterMap_map, List.filterMap_map, Function.id_comp, Function.id_comp,
      List.filterMap_some] at hid
  have hrange : (List.range l'.length).map (fun j => l'[j]?) = l'.map some := by
    refine List.ext_getElem (by simp) fun j hj _ => ?_
    have hj' : j < l'.length := by simpa using hj
    simp [List.getElem?_eq_getElem hj']
  have hsub : places ⊆ List.range l'.length := by
    intro j hj
    have hsome : l'[j]? ∈ l.map some := h ▸ List.mem_map_of_mem hj
    obtain ⟨m, -, hm⟩ := List.mem_map.mp hsome
    exact List.mem_range.mpr (List.getElem?_eq_some_iff.mp hm.symm).1
  obtain ⟨places', hperm, hle⟩ := hnodup.subperm hsub
  refine ⟨places'.filterMap fun j => l'[j]?, ?_, ?_⟩
  · rw [← hread h]
    exact hperm.filterMap _
  · have hall := hle.filterMap fun j => l'[j]?
    rwa [hread hrange] at hall

/-- Destinations that get their messages from one source have, taken together, some of its messages. -/
theorem Conveys.subperm (h : Conveys sent received origin) {ds : List ι} (hnodup : ds.Nodup) {k : κ}
    (hk : ∀ d ∈ ds, ∀ i, i < (received d).length → (origin d i).1 = k) :
    (ds.flatMap received).Subperm (sent k) := by
  let places := ds.flatMap fun d => (List.range (received d).length).map fun i => (origin d i).2
  have hplaces : places.Nodup := by
    refine List.nodup_flatMap.mpr ⟨fun d hd => ?_, hnodup.imp_of_mem fun {d d'} hd hd' hne => ?_⟩
    · refine (List.nodup_map_iff_inj_on List.nodup_range).mpr fun i hi j hj heq => ?_
      have hi := List.mem_range.mp hi
      have hj := List.mem_range.mp hj
      exact (h.once d d i j hi hj (Prod.ext ((hk d hd i hi).trans (hk d hd j hj).symm) heq)).2
    · intro j hj hj'
      obtain ⟨i, hi, rfl⟩ := List.mem_map.mp hj
      obtain ⟨i', hi', heq⟩ := List.mem_map.mp hj'
      have hi := List.mem_range.mp hi
      have hi' := List.mem_range.mp hi'
      have hsame := (hk d hd i hi).trans (hk d' hd' i' hi').symm
      exact hne (h.once d d' i i' hi hi' (Prod.ext hsame heq.symm)).1
  refine subperm_of_places hplaces ?_
  rw [List.map_flatMap, List.map_flatMap]
  refine List.flatMap_congr fun d hd => ?_
  refine List.ext_getElem (by simp) fun i hi _ => ?_
  have hi' : i < (received d).length := by simpa using hi
  have hmessage := h.message d i hi'
  rw [hk d hd i hi', List.getElem?_eq_getElem hi'] at hmessage
  simp [hmessage]

/-- Transport of things that carry messages: `place` says where a thing was sent, and `text` what it
carries. -/
theorem Conveys.of_things {α : Type*} {things : ι → List α} {place : α → κ × Nat} {text : α → μ}
    (hsent : ∀ d, ∀ a ∈ things d, (sent (place a).1)[(place a).2]? = some (text a))
    (hplace : ∀ d d' a a', a ∈ things d → a' ∈ things d' → place a = place a' → a = a')
    (hnodup : ∀ d, (things d).Nodup)
    (hdisjoint : ∀ d d' a, a ∈ things d → a ∈ things d' → d = d') [Inhabited α] :
    Conveys sent (fun d => (things d).map text) (fun d i => place ((things d)[i]?.getD default)) where
  message d i hi := by
    have hi' : i < (things d).length := by simpa using hi
    have ha : (things d)[i] ∈ things d := List.getElem_mem hi'
    simp only [List.getElem?_map, List.getElem?_eq_getElem hi', Option.getD_some, Option.map_some]
    exact (hsent d _ ha).symm
  once d d' i i' hi hi' heq := by
    have hlt : i < (things d).length := by simpa using hi
    have hlt' : i' < (things d').length := by simpa using hi'
    simp only [List.getElem?_eq_getElem hlt, List.getElem?_eq_getElem hlt', Option.getD_some] at heq
    have hsame := hplace d d' _ _ (List.getElem_mem hlt) (List.getElem_mem hlt') heq
    have hd := hdisjoint d d' _ (List.getElem_mem hlt) (hsame ▸ List.getElem_mem hlt')
    subst hd
    exact ⟨rfl, (List.Nodup.getElem_inj_iff (hnodup d)).mp hsame⟩

/-- In order if the places grow along each destination. -/
theorem InOrder.of_things {α : Type*} {things : ι → List α} {place : α → κ × Nat} {text : α → μ}
    (hgrow : ∀ d, (things d).Pairwise fun a a' =>
      (place a).1 = (place a').1 → (place a).2 < (place a').2) [Inhabited α] :
    InOrder (fun d => (things d).map text) (fun d i => place ((things d)[i]?.getD default)) := by
  intro d i j hij hj hsource
  have hlt : j < (things d).length := by simpa using hj
  simp only [List.getElem?_eq_getElem hlt, List.getElem?_eq_getElem (hij.trans hlt),
    Option.getD_some] at hsource ⊢
  exact List.pairwise_iff_getElem.mp (hgrow d) i j (hij.trans hlt) hlt hij hsource

end Conveyance
