import FieldScript.Grammar.Parser
import FieldScript.Tree.Build

/-! What can be wrong with a text that follows the grammar: a number beyond the range of the
format, or a built-in call with arguments the operator cannot use. -/
namespace FieldScript

inductive Fault where
  | number (text : String) (extent : Parser.Extent)
  | call (cause : EvalError) (extent : Parser.Extent)

/-- A part of a tree, or the first fault found in it. -/
abbrev Checked (α : Type) := Except Fault α

end FieldScript
