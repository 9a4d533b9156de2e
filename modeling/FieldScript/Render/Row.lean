import FieldScript.Source.Lines
import FieldScript.Text.Blank
import FieldScript.Text.Columns

/-! Rows of a report: a margin, then a line of the source or marks aligned with it. -/
namespace FieldScript.Render

def shown (line : List Char) : List Char := (line.reverse.dropWhile Text.isBlank).reverse

/-- A tab reaches to the next multiple of four; other blanks, ASCII and controls take one column. -/
def width (c : Char) (position : Nat) : Nat :=
  if c = '\t' then 4 - position % 4
  else if c.toNat < 0xA0 || Text.isBlank c then 1
  else Text.columns c

def lineText (line : List Char) : String :=
  (shown line).zipIdx.foldl (fun out (c, position) =>
    if Text.isBlank c then out.pushn ' ' (width c position) else out.push c) ""

/-- The widths of the first `length` characters of a line; past its end every column counts. -/
def widths (line : List Char) (length : Nat) : List Nat :=
  let text := shown line
  ((text.zipIdx.map fun (c, position) => width c position)
    ++ List.replicate (length - text.length) 1).take length

def row (line : List Char) (length : Nat) (cell : Nat → Char × Char) : String :=
  (widths line length).zipIdx.foldl (fun out (columns, position) =>
    let (head, tail) := cell position
    match columns with
    | 0 => out
    | more + 1 => (out.push head).pushn tail more) ""

def digitCount (n : Nat) : Nat := (toString n).length

def blanks (n : Nat) : String := "".pushn ' ' n

def numberMargin (digits number : Nat) : String :=
  " " ++ blanks (digits - digitCount number) ++ toString number ++ " │"

def margin (digits : Nat) : String := blanks (digits + 2) ++ "│"

def gapMargin (digits : Nat) : String := blanks (digits + 2) ++ "┆"

end FieldScript.Render
