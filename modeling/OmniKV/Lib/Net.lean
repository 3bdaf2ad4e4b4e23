import Mathlib.Data.List.Perm.Subperm
import OmniKV.Lib.Machine

/-!
# Lib.Net

Parties that exchange messages.

A net runs one machine for each party. What a step of a party sends is put at the end of its links to
the receivers; an event that takes a message needs that message on a link to the party. An event also
says how many messages of its link the message overtakes: links are FIFO in the runs where this is
always 0.

A step of the net is known by four facts: the party that moves makes a step of its machine
(`Step.moves`), the others stand still (`Step.stays`), a message taken was on a link (`Step.takes`),
and a message on a link was there before or has just been sent (`Step.mem_link`). `party_invariant`
is the induction rule for what is about single parties.
-/

structure Net (ι σ μ : Type*) where
  party : ι → σ
  link : ι → ι → List μ

namespace Net

variable {ι σ ε μ : Type*}

structure Spec (ι σ ε μ : Type*) where
  machine : ι → Machine σ ε
  sends : Machine.Transition σ ε → List (ι × μ)
  takes : ε → Option μ

structure Event (ι ε : Type*) where
  party : ι
  event : ε
  overtakes : Nat

variable [DecidableEq ι]

/-- The party `p` moves to `s` and sends `out`. -/
def move (net : Net ι σ μ) (p : ι) (s : σ) (out : List (ι × μ)) : Net ι σ μ where
  party := Function.update net.party p s
  link p' q :=
    if p' = p then net.link p' q ++ (out.filter fun m => m.1 = q).map Prod.snd else net.link p' q

/-- The link from `q` to `p` becomes `rest`. -/
def setLink (net : Net ι σ μ) (q p : ι) (rest : List μ) : Net ι σ μ :=
  { net with link := fun q' p' => if q' = q ∧ p' = p then rest else net.link q' p' }

inductive Step (S : Spec ι σ ε μ) : Net ι σ μ → Event ι ε → Net ι σ μ → Prop where
  | own {net : Net ι σ μ} {p : ι} {e : ε} {s : σ} : S.takes e = none →
      (S.machine p).step (net.party p) e s →
      Step S net ⟨p, e, 0⟩ (net.move p s (S.sends ⟨net.party p, e, s⟩))
  | deliver {net : Net ι σ μ} {p q : ι} {e : ε} {s : σ} {m : μ} {ahead behind : List μ} :
      S.takes e = some m → net.link q p = ahead ++ m :: behind →
      (S.machine p).step (net.party p) e s →
      Step S net ⟨p, e, ahead.length⟩
        ((net.setLink q p (ahead ++ behind)).move p s (S.sends ⟨net.party p, e, s⟩))

def machine (S : Spec ι σ ε μ) : Machine (Net ι σ μ) (Event ι ε) where
  init net := (∀ p, (S.machine p).init (net.party p)) ∧ ∀ q p, net.link q p = []
  step := Step S

@[simp] theorem move_party_self (net : Net ι σ μ) (p : ι) (s : σ) (out : List (ι × μ)) :
    (net.move p s out).party p = s := by
  simp [move]

theorem move_party_of_ne (net : Net ι σ μ) {p q : ι} (h : q ≠ p) (s : σ) (out : List (ι × μ)) :
    (net.move p s out).party q = net.party q := by
  simp [move, h]

theorem mem_move_link {net : Net ι σ μ} {p q r : ι} {s : σ} {out : List (ι × μ)} {m : μ}
    (h : m ∈ (net.move p s out).link q r) : m ∈ net.link q r ∨ q = p ∧ (r, m) ∈ out := by
  simp only [move] at h
  split at h
  · rename_i hq
    rcases List.mem_append.mp h with h | h
    · exact Or.inl h
    · obtain ⟨⟨r', m'⟩, hm, rfl⟩ := List.mem_map.mp h
      obtain ⟨hout, hr⟩ := List.mem_filter.mp hm
      obtain rfl : r' = r := by simpa using hr
      exact Or.inr ⟨hq, hout⟩
  · exact Or.inl h

theorem move_link (net : Net ι σ μ) (p : ι) (s : σ) (out : List (ι × μ)) (q r : ι) :
    (net.move p s out).link q r =
      net.link q r ++ if q = p then (out.filter fun m => m.1 = r).map Prod.snd else [] := by
  simp only [move]
  split
  · rfl
  · rw [List.append_nil]

theorem setLink_link_self (net : Net ι σ μ) (q p : ι) (rest : List μ) :
    (fun q' => (net.setLink q p rest).link q' p) =
      Function.update (fun q' => net.link q' p) q rest := by
  funext q'
  by_cases hq : q' = q <;> simp [setLink, hq]

theorem setLink_link_of_ne (net : Net ι σ μ) {q p r : ι} (h : r ≠ p) (rest : List μ) (q' : ι) :
    (net.setLink q p rest).link q' r = net.link q' r := by
  simp [setLink, h]

variable {S : Spec ι σ ε μ} {net net' : Net ι σ μ} {e : Event ι ε}

/-- The first message of a link is delivered. -/
theorem Step.first {p q : ι} {a : ε} {s : σ} {m : μ} {rest : List μ} (hm : S.takes a = some m)
    (hlink : net.link q p = m :: rest) (hs : (S.machine p).step (net.party p) a s) :
    Step S net ⟨p, a, 0⟩ ((net.setLink q p rest).move p s (S.sends ⟨net.party p, a, s⟩)) := by
  have hlink' : net.link q p = [] ++ m :: rest := hlink
  exact .deliver hm hlink' hs

theorem Step.moves (h : Step S net e net') :
    (S.machine e.party).step (net.party e.party) e.event (net'.party e.party) := by
  cases h with
  | own _ hs =>
    rw [move_party_self]
    exact hs
  | deliver _ _ hs =>
    rw [move_party_self]
    exact hs

theorem Step.stays (h : Step S net e net') {q : ι} (hq : q ≠ e.party) :
    net'.party q = net.party q := by
  cases h with
  | own _ _ => exact move_party_of_ne _ hq _ _
  | deliver _ _ _ => exact move_party_of_ne _ hq _ _

theorem Step.takes (h : Step S net e net') {m : μ} (hm : S.takes e.event = some m) :
    ∃ q, m ∈ net.link q e.party := by
  cases h with
  | own hnone _ =>
    rw [hnone] at hm
    cases hm
  | deliver hsome hlink _ =>
    rw [hsome] at hm
    cases hm
    exact ⟨_, by rw [hlink]; simp⟩

theorem Step.mem_link (h : Step S net e net') {q r : ι} {m : μ} (hm : m ∈ net'.link q r) :
    m ∈ net.link q r ∨
      q = e.party ∧ (r, m) ∈ S.sends ⟨net.party e.party, e.event, net'.party e.party⟩ := by
  cases h with
  | own _ _ =>
    rw [move_party_self]
    exact mem_move_link hm
  | deliver _ hlink _ =>
    rw [move_party_self]
    refine (mem_move_link hm).imp_left fun hold => ?_
    simp only [setLink] at hold
    split at hold
    · rename_i heq
      obtain ⟨rfl, rfl⟩ := heq
      rw [hlink]
      rcases List.mem_append.mp hold with hold | hold
      · exact List.mem_append_left _ hold
      · exact List.mem_append_right _ (List.mem_cons_of_mem _ hold)
    · exact hold

/-- What each party keeps by itself, all parties keep in every run of the net. -/
theorem party_invariant {I : ι → σ → Prop} (hinit : ∀ p s, (S.machine p).init s → I p s)
    (hstep : ∀ p s a s', I p s → (S.machine p).step s a s' → I p s')
    {tr : List (Machine.Transition (Net ι σ μ) (Event ι ε))} (hrun : (machine S).Run tr net)
    (p : ι) : I p (net.party p) := by
  refine hrun.invariant' (I := fun net => ∀ p, I p (net.party p)) ?_ ?_ p
  · intro net h p
    exact hinit p _ (h.1 p)
  · intro net e net' h hs p
    by_cases hp : p = e.party
    · subst hp
      exact hstep _ _ _ _ (h _) hs.moves
    · rw [hs.stays hp]
      exact h p

/-! ## Parties on their own -/

/-- An event of a party that takes a message says which party it comes from. -/
structure Arrival (ι ε : Type*) where
  party : ι
  event : ε
  source : ι

inductive LooseStep (S : Spec ι σ ε μ) : (ι → σ) → Arrival ι ε → (ι → σ) → Prop where
  | move {x : ι → σ} {p q : ι} {e : ε} {s : σ} : (S.machine p).step (x p) e s →
      LooseStep S x ⟨p, e, q⟩ (Function.update x p s)

/-- Parties that nothing holds together: they take whatever comes. -/
def loose (S : Spec ι σ ε μ) : Machine (ι → σ) (Arrival ι ε) where
  init x := ∀ p, (S.machine p).init (x p)
  step := LooseStep S

/-- The messages from `q` to `p` that are sent in a step. -/
def sentIn (S : Spec ι σ ε μ) (q p : ι) (t : Machine.Transition (ι → σ) (Arrival ι ε)) : List μ :=
  if t.event.party = q then
    ((S.sends ⟨t.before q, t.event.event, t.after q⟩).filter fun m => m.1 = p).map Prod.snd
  else []

def takenIn (S : Spec ι σ ε μ) (q p : ι) (t : Machine.Transition (ι → σ) (Arrival ι ε)) : List μ :=
  if t.event.source = q ∧ t.event.party = p then (S.takes t.event.event).toList else []

/-- Whenever a message is taken, it is among those sent before, besides the ones taken before. -/
def Causal (S : Spec ι σ ε μ) (tr : List (Machine.Transition (ι → σ) (Arrival ι ε))) : Prop :=
  ∀ ahead t behind m, tr = ahead ++ t :: behind → S.takes t.event.event = some m →
    (ahead.flatMap (takenIn S t.event.source t.event.party) ++ [m]).Subperm
      (ahead.flatMap (sentIn S t.event.source t.event.party))

theorem Causal.of_append {tr more : List (Machine.Transition (ι → σ) (Arrival ι ε))}
    (h : Causal S (tr ++ more)) : Causal S tr :=
  fun ahead t behind m heq => h ahead t (behind ++ more) m (by rw [heq]; simp)

theorem sentIn_move (x : ι → σ) (p source : ι) (a : ε) (s : σ) (q r : ι) :
    sentIn S q r ⟨x, ⟨p, a, source⟩, Function.update x p s⟩ =
      if q = p then ((S.sends ⟨x p, a, s⟩).filter fun m => m.1 = r).map Prod.snd else [] := by
  by_cases hq : q = p
  · subst hq
    simp [sentIn]
  · simp [sentIn, hq, Ne.symm hq]

/-- What is taken in a step leaves its link, and what is sent is put at the end of another. -/
theorem perm_move {tr : List (Machine.Transition (ι → σ) (Arrival ι ε))} {p source q r : ι} {a : ε}
    {s : σ} {t : Machine.Transition (ι → σ) (Arrival ι ε)} {mid : Net ι σ μ}
    (ht : t = ⟨net.party, ⟨p, a, source⟩, Function.update net.party p s⟩)
    (hlink : (tr.flatMap (takenIn S q r) ++ net.link q r).Perm (tr.flatMap (sentIn S q r)))
    (hmid : (takenIn S q r t ++ mid.link q r).Perm (net.link q r)) :
    ((tr ++ [t]).flatMap (takenIn S q r) ++
      (mid.move p s (S.sends ⟨net.party p, a, s⟩)).link q r).Perm
      ((tr ++ [t]).flatMap (sentIn S q r)) := by
  have hsent := sentIn_move net.party p source a s q r (S := S)
  rw [← ht] at hsent
  rw [List.flatMap_append, List.flatMap_append, List.flatMap_singleton, List.flatMap_singleton, hsent,
    move_link, ← List.append_assoc, List.append_assoc (tr.flatMap _)]
  exact ((List.Perm.append_left _ hmid).trans hlink).append_right _

/-- Parties on their own whose messages have all been sent before are a net. -/
theorem run_of_loose {tr : List (Machine.Transition (ι → σ) (Arrival ι ε))} {x : ι → σ}
    (hrun : (loose S).Run tr x) (hcausal : Causal S tr) :
    ∃ tr' net, (machine S).Run tr' net ∧ net.party = x ∧
      (∀ q p, (tr.flatMap (takenIn S q p) ++ net.link q p).Perm (tr.flatMap (sentIn S q p))) ∧
      List.Forall₂ (Machine.Answers (fun x net => Net.party net = x) fun e e' =>
        e'.party = e.party ∧ e'.event = e.event) tr tr' := by
  induction hrun with
  | @nil x h0 => exact ⟨[], ⟨x, fun _ _ => []⟩, .nil ⟨h0, fun _ _ => rfl⟩, rfl, by simp, .nil⟩
  | @snoc tr x x' e hrun hs ih =>
    obtain ⟨tr', net, hrun', rfl, hlinks, hanswers⟩ := ih hcausal.of_append
    cases hs with
    | @move p source a s hs =>
      cases hm : S.takes a with
      | none =>
        refine ⟨_, _, hrun'.snoc (.own hm hs), rfl, fun q r => perm_move rfl (hlinks q r) ?_,
          List.rel_append hanswers (.cons ⟨rfl, ⟨rfl, rfl⟩, rfl⟩ .nil)⟩
        simp [takenIn, hm]
      | some m =>
        have hcome : (tr.flatMap (takenIn S source p) ++ [m]).Subperm
            (tr.flatMap (sentIn S source p)) := hcausal tr _ [] m rfl hm
        have hmem : m ∈ net.link source p := by
          have hle := hcome.trans (hlinks source p).symm.subperm
          exact List.singleton_subperm_iff.mp ((List.subperm_append_left _).mp hle)
        obtain ⟨ahead, behind, hlink⟩ := List.append_of_mem hmem
        refine ⟨_, _, hrun'.snoc (.deliver hm hlink hs), rfl, fun q r => perm_move rfl (hlinks q r) ?_,
          List.rel_append hanswers (.cons ⟨rfl, ⟨rfl, rfl⟩, rfl⟩ .nil)⟩
        by_cases hqr : source = q ∧ p = r
        · obtain ⟨rfl, rfl⟩ := hqr
          simp [takenIn, hm, setLink, hlink, List.perm_middle.symm]
        · have hqr' : ¬(q = source ∧ r = p) := fun h => hqr ⟨h.1.symm, h.2.symm⟩
          simp [takenIn, setLink, hqr, hqr']

end Net
