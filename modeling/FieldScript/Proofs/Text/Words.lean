import FieldScript.Text.Blank

/-! The words of a text are the pieces between its blanks, but for the empty ones. So a word has no
blank in it, words joined by blanks are read back as they are, and a text that is joined from words
has no other words. -/
namespace FieldScript.Text

variable {pending cs : List Char} {s w : String}

theorem wordsFrom_eq (pending cs : List Char) :
    wordsFrom pending cs = (cs.splitOnPPrepend isBlank pending).filter fun piece => !piece.isEmpty := by
  induction cs generalizing pending with
  | nil => cases pending <;> simp [wordsFrom]
  | cons c cs ih =>
    rw [wordsFrom, List.splitOnPPrepend_cons_eq_if]
    split
    · cases pending <;> simp [ih]
    · exact ih (c :: pending)

theorem words_eq (s : String) :
    words s = ((s.toList.splitOnP isBlank).filter fun piece => !piece.isEmpty).map String.ofList := by
  rw [words, wordsFrom_eq, List.splitOnP_eq_splitOnPPrepend]

structure IsWord (w : String) : Prop where
  ne_empty : w ≠ ""
  solid : ∀ c ∈ w.toList, isBlank c = false

theorem forall_mem_wordsFrom (h : ∀ c ∈ pending, isBlank c = false) :
    ∀ piece ∈ wordsFrom pending cs, piece ≠ [] ∧ ∀ c ∈ piece, isBlank c = false := by
  induction cs generalizing pending with
  | nil =>
    rw [wordsFrom]
    split
    case isTrue => exact List.forall_mem_nil _
    case isFalse hne =>
      exact List.forall_mem_singleton.mpr ⟨by simpa using hne, by simpa using h⟩
  | cons c cs ih =>
    have hrest := @ih [] (List.forall_mem_nil _)
    rw [wordsFrom]
    split
    case isTrue =>
      split
      case isTrue => exact hrest
      case isFalse hne =>
        exact List.forall_mem_cons.mpr
          ⟨⟨by simpa using hne, by simpa using h⟩, hrest⟩
    case isFalse hc => exact ih (List.forall_mem_cons.mpr ⟨eq_false_of_ne_true hc, h⟩)

theorem isWord_of_mem_words (h : w ∈ words s) : IsWord w := by
  obtain ⟨piece, hpiece, rfl⟩ := List.mem_map.mp h
  obtain ⟨hne, hsolid⟩ := forall_mem_wordsFrom (by simp) piece hpiece
  exact ⟨by simpa using hne, by simpa using hsolid⟩

theorem IsWord.words_eq (h : IsWord w) : words w = [w] := by
  have hne : w.toList ≠ [] := by simpa using h.ne_empty
  rw [Text.words_eq, List.splitOnP_eq_singleton h.solid]
  simp [hne]

theorem words_append_space (s t : String) : words (s ++ " " ++ t) = words s ++ words t := by
  have hchars : (s ++ " " ++ t).toList = s.toList ++ ' ' :: t.toList := by simp
  rw [words_eq, words_eq s, words_eq t, hchars, List.splitOnP_append_cons _ _ (by decide),
    List.filter_append, List.map_append]

end FieldScript.Text
