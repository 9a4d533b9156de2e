import FieldScript.Render.Label
import FieldScript.Render.Row

/-! Labels within one line: the place is underlined and the message hangs from its middle. -/
namespace FieldScript.Render

structure Mark where
  start : Nat
  stop : Nat
  message : String

namespace Mark

def position (mark : Mark) : Nat := (mark.start + mark.stop) / 2

end Mark

/-- A label that reaches past the end of its line is not drawn. -/
def Label.mark? (label : Label) (line : Source.Line) (index : Nat) : Option Mark :=
  if label.isInline && label.first == index && decide (label.stop ≤ line.stop) then
    some ⟨label.start - line.offset, label.stop - line.offset, label.message⟩
  else none

def hangs (marks : List Mark) (index position : Nat) : Bool :=
  (marks.drop index).any fun mark => mark.position == position

def underlined (marks : List Mark) (position : Nat) : Bool :=
  marks.any fun mark => decide (mark.start ≤ position ∧ position < mark.stop)

def barCell (marks : List Mark) (index position : Nat) : Char × Char :=
  let line := index == 0 && underlined marks position
  if hangs marks index position then (if line then ('┬', '─') else ('│', ' '))
  else if line then ('─', '─')
  else (' ', ' ')

def messageCell (marks : List Mark) (index : Nat) (mark : Mark) (position : Nat) : Char × Char :=
  if position = mark.position then ('╰', '─')
  else if mark.position < position then ('─', '─')
  else if hangs marks index position then ('│', ' ')
  else (' ', ' ')

def markRows (line : List Char) (marks : List Mark) : List String :=
  let length := (marks.map (·.stop)).foldl Nat.max 0 + 2
  marks.zipIdx.flatMap fun (mark, index) =>
    [row line length (barCell marks index),
     row line length (messageCell marks index mark) ++ " " ++ mark.message]

def lineRows (digits number : Nat) (line : List Char) (marks : List Mark) : List String :=
  let marks := marks.mergeSort fun a b => decide (a.position ≤ b.position)
  (numberMargin digits number ++ " " ++ lineText line) ::
    (markRows line marks).map fun text => margin digits ++ " " ++ text

/-- Lines with their labels; a run of lines without one shrinks to one bar. -/
def inlineRows (digits : Nat) (labels : List Label) (gap : Bool) :
    List (Source.Line × Nat) → List String
  | [] => []
  | (line, index) :: rest =>
    match labels.filterMap fun label => label.mark? line index with
    | [] =>
      if gap then inlineRows digits labels true rest
      else (margin digits ++ " ") :: inlineRows digits labels true rest
    | marks => lineRows digits (index + 1) line.text marks ++ inlineRows digits labels false rest

end FieldScript.Render
