import Mathlib.Data.List.Forall2

/-!
# Lib.Machine

Labelled transition systems and their finite runs.

A run is the list of its transitions, oldest first, so that a condition on every step of a run is
a condition on every member of a list. `Run.invariant` is the induction rule; `Run.forall_iff`
turns a step-by-step equivalence into one about whole runs.
-/

structure Machine (σ ε : Type*) where
  init : σ → Prop
  step : σ → ε → σ → Prop

namespace Machine

variable {σ ε : Type*} {M : Machine σ ε}

structure Transition (σ ε : Type*) where
  before : σ
  event : ε
  after : σ

/-- `M.Run tr s`: the transitions `tr` lead from an initial state to `s`. -/
inductive Run (M : Machine σ ε) : List (Transition σ ε) → σ → Prop where
  | nil {s : σ} : M.init s → Run M [] s
  | snoc {tr : List (Transition σ ε)} {s s' : σ} {e : ε} :
      Run M tr s → M.step s e s' → Run M (tr ++ [⟨s, e, s'⟩]) s'

/-- What holds initially and is kept by every step that meets `C` holds at the end of a run whose
steps all meet `C`. -/
theorem Run.invariant {C : Transition σ ε → Prop} {I : σ → Prop} (hinit : ∀ s, M.init s → I s)
    (hstep : ∀ s e s', I s → M.step s e s' → C ⟨s, e, s'⟩ → I s') {tr : List (Transition σ ε)}
    {s : σ} (h : M.Run tr s) (hC : ∀ t ∈ tr, C t) : I s := by
  induction h with
  | nil h0 => exact hinit _ h0
  | snoc _ hs ih =>
    have hpre := ih fun t ht => hC t (List.mem_append_left _ ht)
    exact hstep _ _ _ hpre hs (hC _ (by simp))

theorem Run.invariant' {I : σ → Prop} (hinit : ∀ s, M.init s → I s)
    (hstep : ∀ s e s', I s → M.step s e s' → I s') {tr : List (Transition σ ε)} {s : σ}
    (h : M.Run tr s) : I s :=
  h.invariant (C := fun _ => True) hinit (fun s e s' hI hs _ => hstep s e s' hI hs) (by simp)

/-- Every transition of a run is a step of the machine, and starts where `I` holds. -/
theorem Run.of_mem {C : Transition σ ε → Prop} {I : σ → Prop} (hinit : ∀ s, M.init s → I s)
    (hstep : ∀ s e s', I s → M.step s e s' → C ⟨s, e, s'⟩ → I s') {tr : List (Transition σ ε)}
    {s : σ} (h : M.Run tr s) (hC : ∀ t ∈ tr, C t) :
    ∀ t ∈ tr, I t.before ∧ M.step t.before t.event t.after := by
  induction h with
  | nil _ => simp
  | snoc hr hs ih =>
    have hpre := fun t ht => hC t (List.mem_append_left _ ht)
    intro t ht
    rcases List.mem_append.mp ht with ht | ht
    · exact ih hpre t ht
    · obtain rfl := List.mem_singleton.mp ht
      exact ⟨hr.invariant hinit hstep hpre, hs⟩

/-- In a run whose steps all meet `H`: if, as long as `I` holds, a step is good exactly when it meets
`C`, and `C` keeps `I`, then all steps are good exactly when all meet `C`. -/
theorem Run.forall_iff {H C Q : Transition σ ε → Prop} {I : σ → Prop}
    (hinit : ∀ s, M.init s → I s)
    (hstep : ∀ s e s', I s → M.step s e s' → H ⟨s, e, s'⟩ → C ⟨s, e, s'⟩ → I s')
    (hQ : ∀ s e s', I s → M.step s e s' → H ⟨s, e, s'⟩ → (Q ⟨s, e, s'⟩ ↔ C ⟨s, e, s'⟩))
    {tr : List (Transition σ ε)} {s : σ} (h : M.Run tr s) (hH : ∀ t ∈ tr, H t) :
    (∀ t ∈ tr, Q t) ↔ ∀ t ∈ tr, C t := by
  induction h with
  | nil _ => simp
  | snoc hr hs ih =>
    simp only [List.mem_append, List.mem_singleton, or_imp, forall_and, forall_eq] at hH ⊢
    rw [ih hH.1]
    refine and_congr_right fun hpre => ?_
    have hI := hr.invariant (C := fun t => H t ∧ C t) hinit
      (fun s e s' hI hs hC => hstep s e s' hI hs hC.1 hC.2) fun t ht => ⟨hH.1 t ht, hpre t ht⟩
    exact hQ _ _ _ hI hs hH.2

/-- A queue through a run: if each step takes `outs` from the front of `content` and puts `ins` behind
it, then all that was taken, and what is left, is all that was put in. -/
theorem Run.conserved {α : Type*} (content : σ → List α) (outs ins : Transition σ ε → List α)
    (hinit : ∀ s, M.init s → content s = [])
    (hstep : ∀ s e s', M.step s e s' →
      outs ⟨s, e, s'⟩ ++ content s' = content s ++ ins ⟨s, e, s'⟩)
    {tr : List (Transition σ ε)} {s : σ} (h : M.Run tr s) :
    tr.flatMap outs ++ content s = tr.flatMap ins := by
  induction h with
  | nil h0 => simp [hinit _ h0]
  | snoc _ hs ih =>
    rw [List.flatMap_append, List.flatMap_append, ← ih, List.flatMap_singleton,
      List.flatMap_singleton, List.append_assoc, hstep _ _ _ hs, List.append_assoc]

/-- The states of a run: the one it has reached, and those it has left. -/
inductive Visited (tr : List (Transition σ ε)) (s : σ) : σ → Prop where
  | last : Visited tr s s
  | before {t : Transition σ ε} : t ∈ tr → Visited tr s t.before

theorem Visited.snoc {tr : List (Transition σ ε)} {s s' x : σ} {e : ε} (h : Visited tr s x) :
    Visited (tr ++ [⟨s, e, s'⟩]) s' x := by
  cases h with
  | last => exact .before (t := ⟨s, e, s'⟩) (by simp)
  | before ht => exact .before (List.mem_append_left _ ht)

theorem Visited.trans {tr tr' : List (Transition σ ε)} {s x y : σ} (hx : Visited tr s x)
    (hsub : ∀ t ∈ tr', t ∈ tr) (hy : Visited tr' x y) : Visited tr s y := by
  cases hy with
  | last => exact hx
  | before ht => exact .before (hsub _ ht)

/-- The state a run starts from. -/
def start (tr : List (Transition σ ε)) (s : σ) : σ := (tr.head?.map Transition.before).getD s

theorem start_snoc (tr : List (Transition σ ε)) (s s' : σ) (e : ε) :
    start (tr ++ [⟨s, e, s'⟩]) s' = start tr s := by
  cases tr <;> rfl

theorem Run.start_init {tr : List (Transition σ ε)} {s : σ} (h : M.Run tr s) :
    M.init (start tr s) := by
  induction h with
  | nil h0 => exact h0
  | snoc _ _ ih => rwa [start_snoc]

/-- A run up to one of its transitions. -/
theorem Run.split {tr ahead behind : List (Transition σ ε)} {s : σ} {t : Transition σ ε}
    (h : M.Run tr s) (heq : tr = ahead ++ t :: behind) :
    M.Run ahead t.before ∧ M.step t.before t.event t.after := by
  induction h generalizing behind with
  | nil _ => simp at heq
  | snoc hr hs ih =>
    rcases List.eq_nil_or_concat behind with rfl | ⟨behind, u, rfl⟩
    · obtain ⟨rfl, rfl⟩ := List.append_singleton_inj.mp heq
      exact ⟨hr, hs⟩
    · rw [List.concat_eq_append, ← List.cons_append, ← List.append_assoc] at heq
      exact ih (List.append_singleton_inj.mp heq).1

/-- A visited state ends a run of its own. -/
theorem Run.visited {tr : List (Transition σ ε)} {s x : σ} (h : M.Run tr s) (hx : Visited tr s x) :
    ∃ tr', M.Run tr' x ∧ (∀ t ∈ tr', t ∈ tr) ∧ start tr' x = start tr s := by
  cases hx with
  | last => exact ⟨tr, h, fun _ ht => ht, rfl⟩
  | before ht =>
    obtain ⟨ahead, behind, rfl⟩ := List.append_of_mem ht
    refine ⟨ahead, (h.split rfl).1, fun _ hmem => List.mem_append_left _ hmem, ?_⟩
    cases ahead <;> rfl

/-- A run whose steps all meet `C`. -/
structure KeptRun (M : Machine σ ε) (C : Transition σ ε → Prop) (tr : List (Transition σ ε))
    (s : σ) : Prop where
  run : M.Run tr s
  keeps : ∀ t ∈ tr, C t

theorem KeptRun.snoc {C : Transition σ ε → Prop} {tr : List (Transition σ ε)} {s s' : σ} {e : ε}
    (h : M.KeptRun C tr s) (hs : M.step s e s') (hC : C ⟨s, e, s'⟩) :
    M.KeptRun C (tr ++ [⟨s, e, s'⟩]) s' := by
  refine ⟨h.run.snoc hs, fun t ht => ?_⟩
  rcases List.mem_append.mp ht with ht | ht
  · exact h.keeps t ht
  · rw [List.mem_singleton.mp ht]
    exact hC

/-! ## Lockstep -/

section Lockstep

variable {σ' ε' : Type*} {N : Machine σ' ε'} {R : σ → σ' → Prop} {E : ε → ε' → Prop}

/-- A step and its answer, from related states to related states. -/
structure Answers (R : σ → σ' → Prop) (E : ε → ε' → Prop) (t : Transition σ ε)
    (t' : Transition σ' ε') : Prop where
  before : R t.before t'.before
  event : E t.event t'.event
  after : R t.after t'.after

/-- Where each step from related states is answered by one step to related states, each run is
answered by a run, step for step. -/
theorem Run.lockstep {C : Transition σ ε → Prop}
    (hstep : ∀ s e s' x, R s x → M.step s e s' → C ⟨s, e, s'⟩ →
      ∃ e' x', N.step x e' x' ∧ E e e' ∧ R s' x')
    {tr : List (Transition σ ε)} {s : σ} (h : M.Run tr s) {x₀ : σ'} (hinit : N.init x₀)
    (hstart : R (start tr s) x₀) (hC : ∀ t ∈ tr, C t) :
    ∃ tr' x, N.Run tr' x ∧ R s x ∧ List.Forall₂ (Answers R E) tr tr' := by
  induction h with
  | nil _ => exact ⟨[], x₀, .nil hinit, hstart, .nil⟩
  | snoc _ hs ih =>
    rw [start_snoc] at hstart
    obtain ⟨tr', x, hrun, hx, hanswers⟩ := ih hstart fun t ht => hC t (List.mem_append_left _ ht)
    obtain ⟨e', x', hs', he', hx'⟩ := hstep _ _ _ x hx hs (hC _ (by simp))
    exact ⟨_, x', hrun.snoc hs', hx', List.rel_append hanswers (.cons ⟨hx, he', hx'⟩ .nil)⟩

/-- Each step of the answer answers one of the run. -/
theorem answered_of_mem {tr : List (Transition σ ε)} {tr' : List (Transition σ' ε')}
    (h : List.Forall₂ (Answers R E) tr tr') {t' : Transition σ' ε'} (ht' : t' ∈ tr') :
    ∃ t ∈ tr, Answers R E t t' := by
  induction h with
  | nil => cases ht'
  | cons hhead _ ih =>
    rcases List.mem_cons.mp ht' with rfl | ht'
    · exact ⟨_, List.mem_cons_self, hhead⟩
    · obtain ⟨t, ht, hanswer⟩ := ih ht'
      exact ⟨t, List.mem_cons_of_mem _ ht, hanswer⟩

end Lockstep

/-! ## Going on from a state -/

/-- From `s` to `s'` by steps whose events all meet `P`. -/
inductive Steps (M : Machine σ ε) (P : ε → Prop) : σ → σ → Prop where
  | refl {s : σ} : Steps M P s s
  | cons {s s' s'' : σ} {e : ε} : P e → M.step s e s' → Steps M P s' s'' → Steps M P s s''

namespace Steps

variable {P Q : ε → Prop} {s s' s'' : σ}

theorem trans (h : M.Steps P s s') (h' : M.Steps P s' s'') : M.Steps P s s'' := by
  induction h with
  | refl => exact h'
  | cons he hs _ ih => exact .cons he hs (ih h')

theorem mono (hPQ : ∀ e, P e → Q e) (h : M.Steps P s s') : M.Steps Q s s' := by
  induction h with
  | refl => exact .refl
  | cons he hs _ ih => exact .cons (hPQ _ he) hs ih

end Steps

/-- A run goes on. -/
theorem Run.extend {P : ε → Prop} {tr : List (Transition σ ε)} {s s' : σ} (h : M.Run tr s)
    (hs : M.Steps P s s') : ∃ more, M.Run (tr ++ more) s' ∧ ∀ t ∈ more, P t.event := by
  induction hs generalizing tr with
  | refl => exact ⟨[], by rwa [List.append_nil], by simp⟩
  | cons he hs _ ih =>
    obtain ⟨more, hrun, hmore⟩ := ih (h.snoc hs)
    rw [List.append_assoc] at hrun
    refine ⟨_, hrun, fun t ht => ?_⟩
    rcases List.mem_append.mp ht with ht | ht
    · rw [List.mem_singleton.mp ht]
      exact he
    · exact hmore t ht

end Machine

/-! ## Histories -/

/-- Every member of a history meets `P` with respect to what came before it. -/
def History.Each {α : Type*} (P : List α → α → Prop) (l : List α) : Prop :=
  ∀ pre x post, l = pre ++ x :: post → P pre x

theorem History.Each.nil {α : Type*} {P : List α → α → Prop} : History.Each P [] := by
  intro pre x post h
  simp at h

theorem History.Each.snoc {α : Type*} {P : List α → α → Prop} {l : List α} {a : α}
    (hl : History.Each P l) (ha : P l a) : History.Each P (l ++ [a]) := by
  intro pre x post h
  rcases List.eq_nil_or_concat post with rfl | ⟨post', b, rfl⟩
  · obtain ⟨rfl, rfl⟩ := List.append_singleton_inj.mp h
    exact ha
  · rw [List.concat_eq_append, ← List.cons_append, ← List.append_assoc] at h
    obtain ⟨rfl, rfl⟩ := List.append_singleton_inj.mp h
    exact hl pre x post' rfl
