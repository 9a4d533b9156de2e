import FieldScript.Render.Label
import FieldScript.Render.Row

/-! Labels of several lines: a bracket before the text leads from the first line to the last, and
the message hangs from its end. -/
namespace FieldScript.Render

/-- The rows at the end of a bracket. They reach two columns past the line with its line end. -/
def bracketEnd (digits number : Nat) (line : List Char) (message : String) : List String :=
  let length := line.length + 2
  [numberMargin digits number ++ " ├─▶ " ++ lineText line,
    margin digits ++ " │   " ++ row line length (fun _ => (' ', ' ')),
    margin digits ++ " ╰───" ++ row line length (fun _ => ('─', '─')) ++ " " ++ message]

def bracketGap (digits : Nat) : String := gapMargin digits ++ " ┆   "

/-- What follows the first line. A label that reaches past the end of the text stays open. -/
def bracketRest (digits : Nat) (label : Label) (gap : Bool) :
    List (Source.Line × Nat) → List String
  | [] => []
  | (line, index) :: rest =>
    if index = label.last && label.stop ≤ line.stop then
      bracketEnd digits (index + 1) line.text label.message
    else if gap then bracketRest digits label true rest
    else bracketGap digits :: bracketRest digits label true rest

def bracketRows (digits : Nat) (label : Label) : List (Source.Line × Nat) → List String
  | [] => []
  | (line, index) :: rest =>
    (numberMargin digits (index + 1) ++ " ╭─▶ " ++ lineText line.text) ::
      bracketRest digits label false rest

/-- What stands before a help text under a bracket. Help belongs to the first line of the text: a
label that begins right after that line has its bar there. -/
def bracketLead (firstLine : Option Source.Line) (label : Label) : String :=
  if firstLine.any fun line => line.stop == label.start then "│   " else "    "

end FieldScript.Render
