import Mathlib.Data.List.DropRight

/-!
# Lib.Words

Lines and their words, over any notion of whitespace.

`trim` cuts the whitespace off both ends of a line, `words` are the longest pieces without whitespace.
Splitting a line at each single separator gives the words only if nothing else stands between them;
`words_splitOn` says what it gives otherwise.
-/

namespace Words

variable {α : Type*} {ws : α → Bool}

def trim (ws : α → Bool) (l : List α) : List α := (l.dropWhile ws).rdropWhile ws

def words (ws : α → Bool) (l : List α) : List (List α) := (l.splitOnP ws).filter (· ≠ [])

def IsWord (ws : α → Bool) (w : List α) : Prop := w ≠ [] ∧ ∀ c ∈ w, ws c = false

@[simp] theorem words_nil : words ws [] = [] := rfl

theorem words_append_cons {s : α} (hs : ws s) (l r : List α) :
    words ws (l ++ s :: r) = words ws l ++ words ws r := by
  rw [words, List.splitOnP_append_cons l r hs, List.filter_append]
  rfl

theorem words_cons {s : α} (hs : ws s) (l : List α) : words ws (s :: l) = words ws l :=
  words_append_cons hs [] l

theorem IsWord.words {w : List α} (h : IsWord ws w) : words ws w = [w] := by
  rw [Words.words, List.splitOnP_eq_singleton h.2]
  simp [h.1]

theorem notMem_splitOnP {l piece : List α} (h : piece ∈ l.splitOnP ws) :
    ∀ c ∈ piece, ws c = false := by
  induction l generalizing piece with
  | nil =>
    rw [List.splitOnP_nil, List.mem_singleton] at h
    simp [h]
  | cons x l ih =>
    obtain ⟨first, rest, hsplit⟩ := List.exists_cons_of_ne_nil (List.splitOnP_ne_nil ws l)
    rw [List.splitOnP_cons_eq_if_modifyHead, hsplit] at h
    rw [hsplit] at ih
    split at h
    · rcases List.mem_cons.mp h with rfl | h
      · simp
      · exact ih h
    · rename_i hx
      rcases List.mem_cons.mp h with rfl | h
      · exact List.forall_mem_cons.mpr ⟨by simpa using hx, ih List.mem_cons_self⟩
      · exact ih (List.mem_cons_of_mem _ h)

theorem isWord_of_mem {l w : List α} (h : w ∈ words ws l) : IsWord ws w := by
  obtain ⟨hmem, hne⟩ := List.mem_filter.mp h
  exact ⟨by simpa using hne, notMem_splitOnP hmem⟩

theorem words_eq_nil {l : List α} : words ws l = [] ↔ ∀ c ∈ l, ws c := by
  induction l with
  | nil => simp
  | cons x l ih =>
    by_cases hx : ws x
    · rw [words_cons hx, ih]
      simp [hx]
    · -- the first piece starts with `x`
      obtain ⟨first, rest, hsplit⟩ := List.exists_cons_of_ne_nil (List.splitOnP_ne_nil ws l)
      simp [words, List.splitOnP_cons_eq_if_modifyHead, hx, hsplit]

theorem words_append_right {l g : List α} (hg : ∀ c ∈ g, ws c) : words ws (l ++ g) = words ws l := by
  cases g with
  | nil => rw [List.append_nil]
  | cons s g =>
    rw [words_append_cons (hg s List.mem_cons_self),
      words_eq_nil.mpr fun c hc => hg c (List.mem_cons_of_mem _ hc), List.append_nil]

theorem words_append_left {g : List α} (hg : ∀ c ∈ g, ws c) (l : List α) :
    words ws (g ++ l) = words ws l := by
  induction g with
  | nil => rfl
  | cons s g ih =>
    rw [List.cons_append, words_cons (hg s List.mem_cons_self)]
    exact ih fun c hc => hg c (List.mem_cons_of_mem _ hc)

/-! ## Trimming -/

theorem trim_spec (ws : α → Bool) (l : List α) : ∃ front back, (∀ c ∈ front, ws c) ∧ (∀ c ∈ back, ws c) ∧
    l = front ++ trim ws l ++ back := by
  refine ⟨l.takeWhile ws, (l.dropWhile ws).rtakeWhile ws, ?_, ?_, ?_⟩
  · exact fun c hc => List.mem_takeWhile_imp hc
  · exact fun c hc => List.mem_rtakeWhile_imp hc
  · rw [trim, List.append_assoc, List.rdropWhile_append_rtakeWhile, List.takeWhile_append_dropWhile]

theorem words_trim (l : List α) : words ws (trim ws l) = words ws l := by
  obtain ⟨front, back, hfront, hback, hl⟩ := trim_spec ws l
  conv_rhs => rw [hl, words_append_right hback, words_append_left hfront]

/-- No whitespace is left at the end. -/
theorem eq_nil_of_trim_eq {l a b : List α} (h : trim ws l = a ++ b) (hb : ∀ c ∈ b, ws c) :
    b = [] := by
  rcases List.eq_nil_or_concat b with rfl | ⟨b, c, rfl⟩
  · rfl
  · have hne : (l.dropWhile ws).rdropWhile ws ≠ [] := by
      intro hnil
      rw [trim, hnil] at h
      simp at h
    have hlast := List.rdropWhile_last_not ws _ hne
    refine absurd (hb c (by simp)) ?_
    rw [trim] at h
    simpa [h] using hlast

/-- What neither begins nor ends with whitespace comes out as it went in. -/
theorem trim_append {front body back : List α} (hfront : ∀ c ∈ front, ws c)
    (hback : ∀ c ∈ back, ws c) (hfirst : ∀ c ∈ body.head?, ws c = false)
    (hlast : ∀ c ∈ body.getLast?, ws c = false) (hne : body ≠ []) :
    trim ws (front ++ body ++ back) = body := by
  obtain ⟨c, rest, rfl⟩ := List.exists_cons_of_ne_nil hne
  have hc : ¬ws c = true := by simp [hfirst c rfl]
  have hdrop : (front ++ c :: rest ++ back).dropWhile ws = c :: rest ++ back := by
    rw [List.append_assoc, List.dropWhile_append_of_pos hfront, List.cons_append,
      List.dropWhile_cons_of_neg hc]
  rw [trim, hdrop, List.rdropWhile, List.reverse_append,
    List.dropWhile_append_of_pos (by simpa using hback)]
  obtain ⟨init, d, hd⟩ := List.eq_nil_or_concat (c :: rest) |>.resolve_left hne
  rw [hd] at hlast ⊢
  have hd : ¬ws d = true := by simp [hlast d (by simp)]
  rw [List.concat_eq_append, List.reverse_append, List.reverse_singleton, List.singleton_append,
    List.dropWhile_cons_of_neg hd]
  simp

/-! ## Splitting at a separator -/

section Separator

variable {sep : α}

theorem words_intercalate (hsep : ws sep) (pieces : List (List α)) :
    words ws ([sep].intercalate pieces) = pieces.flatMap (words ws) := by
  induction pieces with
  | nil => rfl
  | cons p pieces ih =>
    cases pieces with
    | nil => simp
    | cons q pieces =>
      rw [List.intercalate_cons_cons, List.append_assoc, List.singleton_append,
        words_append_cons hsep, ih]
      exact List.flatMap_cons.symm

theorem words_splitOn [DecidableEq α] (hsep : ws sep) (l : List α) :
    words ws l = (l.splitOn sep).flatMap (words ws) := by
  rw [← words_intercalate hsep, List.intercalate_splitOn]

theorem intercalate_append {pieces more : List (List α)} (hp : pieces ≠ []) (hm : more ≠ []) :
    [sep].intercalate (pieces ++ more) =
      [sep].intercalate pieces ++ sep :: [sep].intercalate more := by
  induction pieces with
  | nil => exact absurd rfl hp
  | cons p pieces ih =>
    cases pieces with
    | nil => rw [List.singleton_append, List.intercalate_cons_of_ne_nil hm]; simp
    | cons q pieces =>
      rw [List.cons_append, List.intercalate_cons_of_ne_nil (by simp), ih (by simp),
        List.intercalate_cons_cons]
      simp

/-- Words with single separators between them come out of a trimmed line as they went in. -/
theorem trim_intercalate {front back : List α} (hfront : ∀ c ∈ front, ws c)
    (hback : ∀ c ∈ back, ws c) {pieces : List (List α)} (hne : pieces ≠ [])
    (hwords : ∀ w ∈ pieces, IsWord ws w) :
    trim ws (front ++ [sep].intercalate pieces ++ back) = [sep].intercalate pieces := by
  have hfirst : ∃ c rest, [sep].intercalate pieces = c :: rest ∧ ws c = false := by
    obtain ⟨p, more, rfl⟩ := List.exists_cons_of_ne_nil hne
    obtain ⟨hp, hplain⟩ := hwords p List.mem_cons_self
    obtain ⟨c, p, rfl⟩ := List.exists_cons_of_ne_nil hp
    have hc := hplain c List.mem_cons_self
    cases more with
    | nil => exact ⟨c, p, List.intercalate_singleton, hc⟩
    | cons q more => exact ⟨c, _, List.intercalate_cons_cons, hc⟩
  have hlast : ∃ init d, [sep].intercalate pieces = init ++ [d] ∧ ws d = false := by
    obtain ⟨init, p, rfl⟩ := (List.eq_nil_or_concat pieces).resolve_left hne
    rw [List.concat_eq_append] at hwords ⊢
    obtain ⟨hp, hplain⟩ := hwords p (by simp)
    obtain ⟨p, d, rfl⟩ := (List.eq_nil_or_concat p).resolve_left hp
    have hd := hplain d (by simp)
    rcases eq_or_ne init [] with rfl | hinit
    · exact ⟨p, d, by simp, hd⟩
    · refine ⟨[sep].intercalate init ++ sep :: p, d, ?_, hd⟩
      rw [intercalate_append hinit (List.cons_ne_nil _ _), List.intercalate_singleton]
      simp
  obtain ⟨c, rest, hc, hcws⟩ := hfirst
  obtain ⟨init, d, hd, hdws⟩ := hlast
  refine trim_append hfront hback ?_ ?_ (by simp [hc])
  · simpa [hc] using hcws
  · simpa [hd] using hdws

/-- Behind the first pieces of a trimmed line there are no more, or there is another word. -/
theorem eq_nil_of_flatMap_words [DecidableEq α] (hsep : ws sep) {l : List α}
    {pieces more : List (List α)} (h : (trim ws l).splitOn sep = pieces ++ more)
    (hp : pieces ≠ []) (hwords : more.flatMap (words ws) = []) : more = [] := by
  by_contra hm
  have hl : [sep].intercalate ((trim ws l).splitOn sep) = trim ws l := List.intercalate_splitOn sep
  rw [h, intercalate_append hp hm] at hl
  have hws : ∀ c ∈ sep :: [sep].intercalate more, ws c := by
    rw [← words_eq_nil, words_cons hsep, words_intercalate hsep, hwords]
  cases eq_nil_of_trim_eq hl.symm hws

end Separator

end Words
