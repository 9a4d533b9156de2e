import FieldScript.Proofs.Parse.Failing
import FieldScript.Proofs.Parse.Nesting
import FieldScript.Proofs.Source.Balance

/-! When more text may complete a script. An accepted script closes every parenthesis it opens, so
whatever is typed of it is refused for an open parenthesis exactly while one is open: a text with
an open one is never a script of its own, and never nests too deep if the whole does not. -/
namespace FieldScript.Parse

open Source FieldScript.Tree

variable {source typed : String} {trees : List Tree}

theorem isIncomplete_iff (source : String) : isIncomplete source = true ↔
    Unread source defaultMaxDepth ∧ (unclosedParen source.toList).isSome = true := by
  unfold isIncomplete
  cases hscript : script source defaultMaxDepth with
  | ok trees =>
    obtain ⟨-, parts, rest, hread, -⟩ := script_eq_ok.mp hscript
    refine iff_of_false Bool.false_ne_true fun ⟨hunread, _⟩ => ?_
    cases hunread.unread.symm.trans hread
  | error e =>
    cases fails_of_script hscript with
    | deep deep =>
      refine iff_of_false Bool.false_ne_true fun ⟨hunread, _⟩ => ?_
      cases hunread.shallow.symm.trans deep
    | unclosed unread unclosed => exact iff_of_true rfl ⟨unread, by rw [unclosed]; rfl⟩
    | unexpected unread closed =>
      refine iff_of_false Bool.false_ne_true fun ⟨_, hopen⟩ => ?_
      rw [closed] at hopen
      cases hopen
    | @faulty _ _ fault _ read _ =>
      refine iff_of_false (by cases fault <;> exact Bool.false_ne_true) fun ⟨hunread, _⟩ => ?_
      cases hunread.unread.symm.trans read

theorem balanced_of_parse {cs rest : List Char} {parts : List (Checked Tree)}
    (unmarked : '#' ∉ cs) (h : (reader cs).parse cs = some (parts, rest)) : Balanced cs := by
  obtain ⟨height, hnests, -⟩ := shows_of_script unmarked h
  exact hnests.balanced

/-- Of a script without comments that is accepted, any part from its start, cut off anywhere, is
incomplete exactly if it opens more parentheses than it closes. -/
theorem isIncomplete_of_cut (unmarked : '#' ∉ source.toList)
    (parsed : script source defaultMaxDepth = .ok trees)
    (cut : typed.toList <+: source.toList) :
    isIncomplete typed = true ↔ typed.toList.count ')' < typed.toList.count '(' := by
  obtain ⟨hlimit, parts, rest, hread, -⟩ := script_eq_ok.mp parsed
  have hwhole : Balanced source.toList := balanced_of_parse unmarked hread
  have hopened : depthAfter 0 typed.toList + typed.toList.count ')' =
      0 + typed.toList.count '(' :=
    depthAfter_eq_iff.mpr (hwhole.opened.of_cut cut)
  have unmarked' : '#' ∉ typed.toList := fun hmem => unmarked (cut.subset hmem)
  rw [isIncomplete_iff, isSome_unclosedParen_iff]
  constructor
  · rintro ⟨-, hpos⟩
    omega
  · intro hmore
    have hshallow := Nat.le_trans (nesting_le_of_cut cut) hlimit
    refine ⟨⟨tooDeep_eq_none.mpr hshallow, ?_⟩, by omega⟩
    cases htyped : (reader typed.toList).parse typed.toList with
    | none => rfl
    | some result =>
      have hclosed := (balanced_of_parse unmarked' htyped).closed
      omega

/-- Cut off inside a word, with a parenthesis open and with all of them closed. -/
theorem isIncomplete_of_guardedRoot :
    ('#' ∉ "if (A > 1) then B = sqrt(A)".toList ∧
      "if (A > 1) then B = sqrt(A".toList <+: "if (A > 1) then B = sqrt(A)".toList ∧
      "if (A > 1) th".toList <+: "if (A > 1) then B = sqrt(A)".toList ∧
      ∃ trees, script "if (A > 1) then B = sqrt(A)" defaultMaxDepth = .ok trees) ∧
    isIncomplete "if (A > 1) then B = sqrt(A" = true ∧ isIncomplete "if (A > 1) th" = false := by
  have unmarked : '#' ∉ "if (A > 1) then B = sqrt(A)".toList := by decide
  have parsed : ∃ trees, script "if (A > 1) then B = sqrt(A)" defaultMaxDepth = .ok trees :=
    ⟨_, rfl⟩
  have hopen : "if (A > 1) then B = sqrt(A".toList <+: "if (A > 1) then B = sqrt(A)".toList := by
    decide
  have hclosed : "if (A > 1) th".toList <+: "if (A > 1) then B = sqrt(A)".toList := by decide
  refine ⟨⟨unmarked, hopen, hclosed, parsed⟩, ?_, ?_⟩
  · exact (isIncomplete_of_cut unmarked parsed.choose_spec hopen).mpr (by decide)
  · rw [← Bool.not_eq_true, isIncomplete_of_cut unmarked parsed.choose_spec hclosed]
    decide

end FieldScript.Parse
