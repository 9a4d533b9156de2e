import FieldScript.Source.Lines

/-! Messages about places of a source text, and the sections in which they are shown. Positions are
taken as character counts. -/
namespace FieldScript.Render

structure Label where
  start : Nat
  stop : Nat
  /-- The line of the first character, counted from 0. -/
  first : Nat
  /-- The line of the last character, counted from 0. -/
  last : Nat
  message : String

namespace Label

/-- A place that begins or ends outside the text has no label. -/
def ofSpan? (source : List Char) (span : Span) (message : String) : Option Label := do
  let (first, _) ← Source.lineAt? source span.start
  let (last, _) ← Source.lineAt? source (Nat.max span.start (span.stop - 1))
  some ⟨span.start, span.stop, first, last, message⟩

def isInline (label : Label) : Bool := label.first == label.last

def precedes (a b : Label) : Bool := a.isInline && b.isInline && decide (a.last ≤ b.last)

end Label

/-- A label joins the section before it unless that would lead back up the text. A label of several
lines has a section of its own. -/
def sections : List Label → List (List Label)
  | [] => []
  | label :: rest =>
    match sections rest with
    | (next :: others) :: later =>
      if label.precedes next then (label :: next :: others) :: later
      else [label] :: (next :: others) :: later
    | later => [label] :: later

end FieldScript.Render
