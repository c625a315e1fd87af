import JvmReach.Text.Blank

/-!
# The words of a text

A blank belongs to no word, and what stands before it and after it has words of its own. So
words with spaces between them are read back, however many spaces there are.
-/

namespace JvmReach.Text

/-- The words of a text as lists of characters. -/
def wordLists (cs : List Char) : List (List Char) :=
  (cs.splitOnP isBlank).filter (!·.isEmpty)

theorem words_ofList (cs : List Char) :
    words (String.ofList cs) = (wordLists cs).map String.ofList := by
  rw [words, String.toList_ofList, wordLists]

structure IsWord (w : List Char) : Prop where
  ne_nil : w ≠ []
  isBlank_eq_false : ∀ c ∈ w, isBlank c = false

/-- The words with spaces between them; there may be more before the first and after the last. -/
inductive Spaced : List (List Char) → List Char → Prop
  | nil : Spaced [] []
  | space {ws : List (List Char)} {cs : List Char} (h : Spaced ws cs) : Spaced ws (' ' :: cs)
  | word {w : List Char} {ws : List (List Char)} {cs : List Char} (hw : IsWord w)
      (hcs : ∀ c ∈ cs.head?, c = ' ') (h : Spaced ws cs) : Spaced (w :: ws) (w ++ cs)

variable {w cs ds : List Char} {ws : List (List Char)} {c : Char}

@[simp]
theorem wordLists_nil : wordLists [] = [] := by
  simp [wordLists, List.splitOnP_nil]

theorem wordLists_append_cons (hc : isBlank c = true) (cs ds : List Char) :
    wordLists (cs ++ c :: ds) = wordLists cs ++ wordLists ds := by
  rw [wordLists, List.splitOnP_append_cons cs ds hc, List.filter_append]
  rfl

theorem wordLists_cons (hc : isBlank c = true) (cs : List Char) :
    wordLists (c :: cs) = wordLists cs := by
  simpa using wordLists_append_cons hc [] cs

theorem isWord_of_any_eq_false (hne : w ≠ []) (hw : w.any isBlank = false) : IsWord w :=
  ⟨hne, by simpa using hw⟩

theorem IsWord.wordLists_eq (h : IsWord w) : wordLists w = [w] := by
  rw [wordLists, List.splitOnP_eq_singleton h.isBlank_eq_false]
  simp [h.ne_nil]

/-- Blanks at the front belong to no word, whatever follows. -/
theorem wordLists_trimLeft_append (cs ds : List Char) :
    wordLists (trimLeft cs ++ ds) = wordLists (cs ++ ds) := by
  induction cs with
  | nil => rfl
  | cons c cs ih =>
      by_cases hc : isBlank c = true
      · have htrim : trimLeft (c :: cs) = trimLeft cs := List.dropWhile_cons_of_pos hc
        rw [htrim, ih, List.cons_append, wordLists_cons hc]
      · have htrim : trimLeft (c :: cs) = c :: cs := List.dropWhile_cons_of_neg hc
        rw [htrim]

theorem isBlank_space : isBlank ' ' = true := by decide

theorem wordLists_of_spaced (h : Spaced ws cs) : wordLists cs = ws := by
  induction h with
  | nil => exact wordLists_nil
  | space _ ih => rw [wordLists_cons isBlank_space, ih]
  | @word w ws cs hw hcs _ ih =>
      cases cs with
      | nil =>
          rw [wordLists_nil] at ih
          rw [List.append_nil, hw.wordLists_eq, ← ih]
      | cons c cs =>
          cases hcs c rfl
          rw [wordLists_cons isBlank_space] at ih
          rw [wordLists_append_cons isBlank_space, hw.wordLists_eq, ih]
          rfl

/-- Between the words there are no blanks other than spaces. -/
theorem notMem_of_spaced (h : Spaced ws cs) (hc : isBlank c = true) (hspace : c ≠ ' ') :
    c ∉ cs := by
  induction h with
  | nil => exact List.not_mem_nil
  | space _ ih => simp [hspace, ih]
  | word hw _ _ ih =>
      intro hmem
      rcases List.mem_append.1 hmem with hmem | hmem
      · have hfalse := hw.isBlank_eq_false c hmem
        rw [hc] at hfalse
        cases hfalse
      · exact ih hmem

end JvmReach.Text
