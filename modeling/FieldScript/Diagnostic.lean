import FieldScript.Source.Span

/-! A finding about a source text: a message, the place it is about, and what may help. -/
namespace FieldScript

structure Diagnostic where
  message : String
  span : Span
  code : String
  help : List String
  related : List (Span × String)
  deriving DecidableEq

end FieldScript
