import FieldScript.Help
import FieldScript.Proofs.Text.Words
import Mathlib.Data.List.Chain

/-! Wrapped help texts. No word of a description is lost, moved or cut. A line holds more than one word
only if they fit, and it ends only where the next word would not fit. -/
namespace FieldScript.HelpEntry

open Text (words IsWord words_append_space)

variable {line word : String} {lines rest : List String}

/-- A line of words with single spaces between them. Only a word that stands alone may be wide. -/
structure WellSpaced (line : String) : Prop where
  filled : words line ≠ []
  spaced : line = " ".intercalate (words line)
  narrow : line.utf8ByteSize ≤ width ∨ ∃ word, words line = [word]

/-- The first word of the next line has no room behind this one. -/
def Full (line next : String) : Prop :=
  ∃ word rest, words next = word :: rest ∧ width < (line ++ " " ++ word).utf8ByteSize

/-- Lines that are filled one after the other with the words in their order. -/
structure Fills (lines ws : List String) : Prop where
  kept : lines.flatMap words = ws
  wellSpaced : ∀ line ∈ lines, WellSpaced line
  greedy : lines.IsChain Full

theorem wellSpaced_word (h : IsWord word) : WellSpaced word where
  filled := h.words_eq ▸ List.cons_ne_nil word []
  spaced := by rw [h.words_eq, String.intercalate_singleton]
  narrow := .inr ⟨word, h.words_eq⟩

theorem words_append_word (line : String) (h : IsWord word) :
    words (line ++ " " ++ word) = words line ++ [word] := by
  rw [words_append_space, h.words_eq]

theorem utf8ByteSize_append_word (line word : String) :
    (line ++ " " ++ word).utf8ByteSize = line.utf8ByteSize + 1 + word.utf8ByteSize := by
  rw [String.utf8ByteSize_append, String.utf8ByteSize_append]
  rfl

theorem WellSpaced.append_word (hline : WellSpaced line) (h : IsWord word)
    (hroom : (line ++ " " ++ word).utf8ByteSize ≤ width) : WellSpaced (line ++ " " ++ word) where
  filled := by
    rw [words_append_word line h]
    exact List.append_ne_nil_of_left_ne_nil hline.filled _
  spaced := by
    rw [words_append_word line h,
      String.intercalate_append_of_ne_nil hline.filled (List.cons_ne_nil word []), ← hline.spaced,
      String.intercalate_singleton]
  narrow := .inl hroom

theorem WellSpaced.not_isEmpty (h : WellSpaced line) : line.isEmpty = false := by
  refine eq_false_of_ne_true fun hempty => h.filled ?_
  rw [String.isEmpty_iff.mp hempty]
  rfl

theorem fills_nil : Fills [] [] := ⟨rfl, List.forall_mem_nil _, .nil⟩

theorem fills_singleton (h : WellSpaced line) : Fills [line] (words line) where
  kept := List.append_nil _
  wellSpaced := List.forall_mem_singleton.mpr h
  greedy := .singleton line

theorem Fills.cons (h : Fills lines (word :: rest)) (hline : WellSpaced line)
    (hroom : width < (line ++ " " ++ word).utf8ByteSize) :
    Fills (line :: lines) (words line ++ word :: rest) where
  kept := congrArg (words line ++ ·) h.kept
  wellSpaced := List.forall_mem_cons.mpr ⟨hline, h.wellSpaced⟩
  greedy := by
    cases lines with
    | nil => exact .singleton line
    | cons next later =>
      refine .cons_cons ?_ h.greedy
      have hkept : words next ++ later.flatMap words = word :: rest := h.kept
      cases hnext : words next with
      | nil => exact absurd hnext (h.wellSpaced next List.mem_cons_self).filled
      | cons first others =>
        rw [hnext] at hkept
        obtain ⟨rfl, -⟩ := List.cons.inj hkept
        exact ⟨first, others, hnext, hroom⟩

theorem fills_wrapFrom (hline : WellSpaced line) (hrest : ∀ word ∈ rest, IsWord word) :
    Fills (wrapFrom line rest) (words line ++ rest) := by
  induction rest generalizing line with
  | nil =>
    rw [wrapFrom, hline.not_isEmpty, List.append_nil]
    exact fills_singleton hline
  | cons word rest ih =>
    obtain ⟨hword, hrest⟩ := List.forall_mem_cons.mp hrest
    rw [wrapFrom, hline.not_isEmpty, ← utf8ByteSize_append_word]
    simp only [Bool.false_eq_true, if_false]
    split
    case isTrue hroom =>
      have hlater := ih (wellSpaced_word hword) hrest
      rw [hword.words_eq, List.singleton_append] at hlater
      exact hlater.cons hline hroom
    case isFalse hroom =>
      have hlonger := hline.append_word hword (Nat.le_of_not_gt hroom)
      rw [List.append_cons, ← words_append_word line hword]
      exact ih hlonger hrest

theorem fills_lines (entry : HelpEntry) : Fills entry.lines (words entry.description) := by
  have hwords : ∀ word ∈ words entry.description, IsWord word := fun _ => Text.isWord_of_mem_words
  rw [lines]
  cases h : words entry.description with
  | nil => exact fills_nil
  | cons word rest =>
    rw [h] at hwords
    obtain ⟨hword, hrest⟩ := List.forall_mem_cons.mp hwords
    have hfills := fills_wrapFrom (wellSpaced_word hword) hrest
    rw [hword.words_eq, List.singleton_append] at hfills
    exact hfills

theorem foldl_lines (out : String) (lines : List String) :
    lines.foldl (fun out line => out ++ "    " ++ line ++ "\n") out =
      out ++ String.join (lines.map fun line => "    " ++ line ++ "\n") := by
  induction lines generalizing out with
  | nil => simp
  | cons line lines ih =>
    rw [List.foldl_cons, ih, List.map_cons, String.join_cons]
    simp only [String.append_assoc]

/-- An entry is printed as its name and the lines of its description, and the words of the description
fill those lines. -/
theorem text_filled (entry : HelpEntry) :
    entry.text = entry.name ++ "\n" ++
        String.join (entry.lines.map fun line => "    " ++ line ++ "\n") ∧
      Fills entry.lines (words entry.description) ∧
      words entry.description =
        ((entry.description.toList.splitOnP Text.isBlank).filter fun piece => !piece.isEmpty).map
          String.ofList :=
  ⟨foldl_lines _ _, fills_lines entry, Text.words_eq _⟩

end FieldScript.HelpEntry
