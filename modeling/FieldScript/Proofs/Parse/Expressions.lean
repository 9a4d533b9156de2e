import FieldScript.Proofs.Grammar.Spellings
import FieldScript.Proofs.Parse.WellFormed

/-! Chains as whole expressions. Without parentheses the limit on nesting is of no account, and behind
the chain the text is over. -/
namespace FieldScript.Parse

open Grammar FieldScript.Parser Source FieldScript.Tree

theorem expression_eq_ok {text : String} {tree : Tree} (hsolid : Solid text.toList)
    (hdepth : nesting text.toList ≤ defaultMaxDepth)
    (hread : ∀ levels, (value levels).parse text.toList = some (.ok tree, [])) :
    expression text = .ok tree := by
  have hend : (skip >>= fun _ => endOfInput >>= fun _ => pure (.ok tree : Checked Tree)).parse [] =
      some (.ok tree, []) := rfl
  have hparse : (Grammar.expression (value (levels text.toList))).parse text.toList =
      some (.ok tree, []) := by
    unfold Grammar.expression
    rw [parse_named, parse_bind_some (parse_skip_solid hsolid), parse_bind_some (hread _)]
    exact hend
  unfold expression
  rw [read_eq_ok.mpr ⟨hdepth, [], hparse⟩]
  rfl

theorem expression_arith {chain : ArithChain} (h : chain.WellFormed) :
    expression (Tree.text (.arith chain)) = .ok (.arith chain) := by
  refine expression_eq_ok ?_ ?_ fun levels => ?_
  · rw [toList_arith]
    exact solid_leaf h.1
  · rw [(nests_arith h).nesting_eq]
    exact Nat.zero_le _
  · have hread : ReadsBack (value levels) (.arith chain) := by
      cases levels <;> exact readsBack_arith h
    have hwhole := hread [] .ended
    rwa [List.append_nil] at hwhole

theorem expression_spelled {first : Test} {steps : List SpelledStep} (hfirst : first.WellFormed)
    (hsteps : ∀ step ∈ steps, step.1.IsSpelling step.2.1 ∧ step.2.2.WellFormed) :
    expression (spelledText first steps) = .ok (.tests (meant first steps)) := by
  refine expression_eq_ok ?_ ?_ fun levels => ?_
  · rw [toList_spelledText]
    exact readsParts_test.solid first hfirst _
  · rw [(nests_spelledText hfirst hsteps).nesting_eq]
    exact Nat.zero_le _
  · have hwhole := parse_spelledValue levels hfirst hsteps .ended
    rwa [List.append_nil] at hwhole

end FieldScript.Parse
