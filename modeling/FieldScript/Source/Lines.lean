import FieldScript.Source.Span

/-! Lines of a text with the characters that end them, and the line a character stands in. A line
end at the very end of the text opens no further line. -/
namespace FieldScript.Source

structure Line where
  /-- Characters before the line. -/
  offset : Nat
  text : List Char
  deriving DecidableEq

def Line.stop (line : Line) : Nat := line.offset + line.text.length

/-- Line feed, carriage return, vertical tab, form feed, next line, line and paragraph separator. -/
def endsTextLine (c : Char) : Bool :=
  decide (0x0A ≤ c.toNat ∧ c.toNat ≤ 0x0D) || c.toNat == 0x85 || c.toNat == 0x2028 ||
    c.toNat == 0x2029

/-- `pending` is the line being read, reversed. A carriage return and line feed end one line. -/
def linesFrom (offset : Nat) (pending : List Char) : List Char → List Line
  | [] => if pending.isEmpty then [] else [⟨offset, pending.reverse⟩]
  | '\r' :: '\n' :: cs =>
    let line := pending.reverse ++ ['\r', '\n']
    ⟨offset, line⟩ :: linesFrom (offset + line.length) [] cs
  | c :: cs =>
    if endsTextLine c then
      let line := pending.reverse ++ [c]
      ⟨offset, line⟩ :: linesFrom (offset + line.length) [] cs
    else linesFrom offset (c :: pending) cs

def lines (source : List Char) : List Line :=
  match source with
  | [] => [⟨0, []⟩]
  | _ => linesFrom 0 [] source

/-- Number of the line, counted from 0, and the line that holds the character at a position. The
end of the text belongs to the last line. -/
def lineAt? (source : List Char) (position : Nat) : Option (Nat × Line) :=
  if position ≤ source.length then
    let before := (lines source).takeWhile fun line => decide (line.offset ≤ position)
    before.getLast?.map fun line => (before.length - 1, line)
  else none

end FieldScript.Source
