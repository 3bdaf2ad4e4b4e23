import Mathlib.Data.List.Infix

/-!
# Lib.Frames

Streams cut into frames by a separator that ends each of them.

A stream is `Whole` if it has no unfinished frame. `readUntil` takes what a buffered reader takes: the
elements up to and including the first separator, or all that is left. Where the frames are encoded
messages, `arrived` are those that a stream cut off anywhere still brings in full.
-/

namespace Frames

variable {α : Type*} (sep : α)

/-- The separator stands at the end, and nowhere else. -/
def IsFrame (f : List α) : Prop := ∃ body, sep ∉ body ∧ f = body ++ [sep]

def Whole (s : List α) : Prop := ∃ fs : List (List α), (∀ f ∈ fs, IsFrame sep f) ∧ s = fs.flatten

variable {sep}

theorem IsFrame.getLast? {f : List α} (h : IsFrame sep f) : f.getLast? = some sep := by
  obtain ⟨body, -, rfl⟩ := h
  exact List.getLast?_concat

theorem Whole.nil : Whole sep [] := ⟨[], by simp, rfl⟩

theorem Whole.append {s s' : List α} (h : Whole sep s) (h' : Whole sep s') :
    Whole sep (s ++ s') := by
  obtain ⟨fs, hfs, rfl⟩ := h
  obtain ⟨fs', hfs', rfl⟩ := h'
  refine ⟨fs ++ fs', fun f hf => ?_, List.flatten_append.symm⟩
  exact (List.mem_append.mp hf).elim (hfs f) (hfs' f)

theorem IsFrame.whole {f : List α} (h : IsFrame sep f) : Whole sep f :=
  ⟨[f], by simpa using h, by simp⟩

theorem Whole.getLast? {s : List α} (h : Whole sep s) (hne : s ≠ []) : s.getLast? = some sep := by
  obtain ⟨fs, hfs, rfl⟩ := h
  rcases List.eq_nil_or_concat fs with rfl | ⟨fs, f, rfl⟩
  · exact absurd rfl hne
  · have hlast := (hfs f (by simp)).getLast?
    rw [List.concat_eq_append, List.flatten_append, List.flatten_singleton, List.getLast?_append,
      hlast, Option.some_or]

/-- With something unfinished at its end, a stream is not whole. -/
theorem not_whole_append {s t : List α} (ht : t ≠ []) (hsep : sep ∉ t) : ¬Whole sep (s ++ t) := by
  intro h
  have hlast := h.getLast? (by simp [ht])
  rw [List.getLast?_append, List.getLast?_eq_some_getLast ht, Option.some_or] at hlast
  exact hsep (Option.some.inj hlast ▸ List.getLast_mem ht)

/-- What is cut off a frame is unfinished. -/
theorem IsFrame.notMem_of_prefix {f t : List α} (h : IsFrame sep f) (ht : t <+: f)
    (hne : t ≠ f) : sep ∉ t := by
  obtain ⟨body, hbody, rfl⟩ := h
  rcases List.prefix_concat_iff.mp ht with rfl | ht
  · exact absurd rfl hne
  · exact fun hmem => hbody (ht.subset hmem)

theorem prefix_append_cases {s t u : List α} (h : s <+: t ++ u) :
    s <+: t ∨ ∃ v, s = t ++ v ∧ v <+: u := by
  rcases List.prefix_or_prefix_of_prefix h (List.prefix_append t u) with hs | ⟨v, rfl⟩
  · exact Or.inl hs
  · exact Or.inr ⟨v, rfl, (List.prefix_append_right_inj t).mp h⟩

/-! ## Streams of messages -/

def newline : UInt8 := 10

/-- How a stream ends: with an end of file, or with a read error. -/
inductive Ending where
  | eof
  | error
  deriving DecidableEq

structure Codec (μ α : Type*) where
  encode : μ → List α
  decode : List α → Option μ

/-- What is sent as a line can be told from what is cut off it. -/
structure Codec.Lawful {μ : Type*} (c : Codec μ α) (sep : α) : Prop where
  sep_notMem : ∀ m, sep ∉ c.encode m
  decode_encode : ∀ m, c.decode (c.encode m) = some m
  decode_line : ∀ m, c.decode (c.encode m ++ [sep]) = some m
  decode_prefix : ∀ m s, s <+: c.encode m → s ≠ c.encode m → c.decode s = none

namespace Codec

variable {μ : Type*} (c : Codec μ α)

/-- The stream of the messages `ms`. -/
def lines (sep : α) (ms : List μ) : List α := (ms.map fun m => c.encode m ++ [sep]).flatten

/-- Those of the messages `ms` all of whose bytes are in the beginning `s` of their stream. -/
def arrived : List μ → List α → List μ
  | [], _ => []
  | m :: ms, s =>
    if (c.encode m).length ≤ s.length then m :: arrived ms (s.drop ((c.encode m).length + 1))
    else []

variable {c}

theorem Lawful.encode_ne_nil [Nontrivial μ] (h : c.Lawful sep) (m : μ) : c.encode m ≠ [] := by
  intro hm
  obtain ⟨m', hne⟩ := exists_ne m
  have hdecode := h.decode_encode m
  rw [hm] at hdecode
  by_cases hm' : c.encode m' = []
  · have hdecode' := h.decode_encode m'
    rw [hm', hdecode] at hdecode'
    exact hne (Option.some.inj hdecode').symm
  · rw [h.decode_prefix m' [] List.nil_prefix (Ne.symm hm')] at hdecode
    cases hdecode

theorem lines_cons (m : μ) (ms : List μ) :
    c.lines sep (m :: ms) = c.encode m ++ sep :: c.lines sep ms := by
  simp [lines]

theorem Lawful.arrived_nil [Nontrivial μ] (h : c.Lawful sep) (ms : List μ) :
    c.arrived ms [] = [] := by
  cases ms with
  | nil => rfl
  | cons m ms =>
    rw [arrived, if_neg (by simpa using h.encode_ne_nil m)]

/-- The lines of `ms`, and of the messages behind them what has come. -/
theorem arrived_lines_append (ms ms' : List μ) (s : List α) :
    c.arrived (ms ++ ms') (c.lines sep ms ++ s) = ms ++ c.arrived ms' s := by
  induction ms with
  | nil => rfl
  | cons m ms ih =>
    rw [lines_cons, List.append_assoc, List.cons_append, List.cons_append, arrived,
      if_pos (by simp), List.drop_append, List.drop_eq_nil_of_le (Nat.le_succ _)]
    simpa using ih

theorem arrived_of_length_lt {m : μ} {ms : List μ} {s : List α}
    (h : s.length < (c.encode m).length) : c.arrived (m :: ms) s = [] := by
  rw [arrived, if_neg (Nat.not_le_of_lt h)]

/-- The beginning of a stream without a whole line: either the first message has arrived, or what has
arrived cannot be decoded. -/
theorem Lawful.arrived_of_notMem [Nontrivial μ] (h : c.Lawful sep) {ms : List μ} {s : List α}
    (hs : s <+: c.lines sep ms) (hsep : sep ∉ s) :
    (∃ m, s = c.encode m ∧ c.arrived ms s = [m]) ∨
      (∀ m, s ≠ c.encode m) ∧ c.arrived ms s = [] ∧ (s ≠ [] → c.decode s = none) := by
  cases ms with
  | nil =>
    obtain rfl := List.prefix_nil.mp hs
    exact Or.inr ⟨fun m => (h.encode_ne_nil m).symm, rfl, fun hne => absurd rfl hne⟩
  | cons m rest =>
    have hm : s <+: c.encode m := by
      rw [lines_cons] at hs
      rcases prefix_append_cases hs with hs | ⟨v, rfl, hv⟩
      · exact hs
      · rcases List.prefix_cons_iff.mp hv with rfl | ⟨t, rfl, -⟩
        · rw [List.append_nil]
        · simp at hsep
    by_cases heq : s = c.encode m
    · refine Or.inl ⟨m, heq, ?_⟩
      rw [arrived, if_pos (by rw [heq]), List.drop_eq_nil_of_le (by rw [heq]; omega),
        h.arrived_nil]
    · have hnone := h.decode_prefix m s hm heq
      have hlt : s.length < (c.encode m).length :=
        lt_of_le_of_ne hm.length_le fun hlen => heq (hm.eq_of_length hlen)
      refine Or.inr ⟨?_, by rw [arrived, if_neg (by omega)], fun _ => hnone⟩
      rintro m' rfl
      rw [h.decode_encode] at hnone
      cases hnone

end Codec

/-! ## Reading -/

variable [DecidableEq α]

def readUntil (sep : α) : List α → List α × List α
  | [] => ([], [])
  | a :: s => if a = sep then ([a], s) else (a :: (readUntil sep s).1, (readUntil sep s).2)

theorem readUntil_of_notMem {s : List α} (h : sep ∉ s) : readUntil sep s = (s, []) := by
  induction s with
  | nil => rfl
  | cons a s ih =>
    obtain ⟨hne, hs⟩ := not_or.mp (List.mem_cons.not.mp h)
    rw [readUntil, if_neg (Ne.symm hne), ih hs]

theorem readUntil_frame {body : List α} (h : sep ∉ body) (s : List α) :
    readUntil sep (body ++ sep :: s) = (body ++ [sep], s) := by
  induction body with
  | nil => simp [readUntil]
  | cons a body ih =>
    obtain ⟨hne, hbody⟩ := not_or.mp (List.mem_cons.not.mp h)
    rw [List.cons_append, readUntil, if_neg (Ne.symm hne), ih hbody]
    rfl

theorem readUntil_append (s : List α) : (readUntil sep s).1 ++ (readUntil sep s).2 = s := by
  induction s with
  | nil => rfl
  | cons a s ih =>
    by_cases ha : a = sep
    · simp [readUntil, ha]
    · simp [readUntil, ha, ih]

theorem readUntil_snd_length_lt {s : List α} (h : s ≠ []) :
    (readUntil sep s).2.length < s.length := by
  induction s with
  | nil => exact absurd rfl h
  | cons a s ih =>
    by_cases ha : a = sep
    · simp [readUntil, ha]
    · cases s with
      | nil => simp [readUntil, ha]
      | cons b s =>
        have hlt := ih (List.cons_ne_nil b s)
        rw [readUntil, if_neg ha]
        exact hlt.trans (Nat.lt_succ_self _)

theorem isFrame_readUntil {s : List α} (h : sep ∈ s) : IsFrame sep (readUntil sep s).1 := by
  obtain ⟨body, rest, rfl, hbody⟩ := List.eq_append_cons_of_mem h
  rw [readUntil_frame hbody]
  exact ⟨body, hbody, rfl⟩

/-- A whole line in the beginning of a stream is that of its first message. -/
theorem Codec.Lawful.readUntil_lines {μ : Type*} {c : Codec μ α} (h : c.Lawful sep) {ms : List μ}
    {s : List α} (hs : s <+: c.lines sep ms) (hsep : sep ∈ s) :
    ∃ m rest, ms = m :: rest ∧ (readUntil sep s).1 = c.encode m ++ [sep] ∧
      (readUntil sep s).2 <+: c.lines sep rest ∧
      c.arrived ms s = m :: c.arrived rest (readUntil sep s).2 := by
  cases ms with
  | nil =>
    rw [List.prefix_nil.mp hs] at hsep
    cases hsep
  | cons m rest =>
    rw [Codec.lines_cons] at hs
    rcases prefix_append_cases hs with hs | ⟨v, rfl, hv⟩
    · exact absurd (hs.subset hsep) (h.sep_notMem m)
    · rcases List.prefix_cons_iff.mp hv with rfl | ⟨t, rfl, ht⟩
      · rw [List.append_nil] at hsep
        exact absurd hsep (h.sep_notMem m)
      · refine ⟨m, rest, rfl, ?_⟩
        rw [readUntil_frame (h.sep_notMem m)]
        refine ⟨rfl, ht, ?_⟩
        have hdrop : (c.encode m ++ sep :: t).drop ((c.encode m).length + 1) = t := by simp
        rw [Codec.arrived, if_pos (by simp), hdrop]

end Frames
