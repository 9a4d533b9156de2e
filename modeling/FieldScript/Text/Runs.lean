/-! Sets of characters, written as runs of code points. -/
namespace FieldScript.Text

/-- First and last code point of each run, in increasing order. -/
abbrev Runs := List (Nat × Nat)

def Runs.contains (runs : Runs) (c : Char) : Bool :=
  runs.any fun (first, last) => decide (first ≤ c.toNat ∧ c.toNat ≤ last)

end FieldScript.Text
