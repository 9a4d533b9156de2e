import FieldScript.Binary64.Shortest

/-! The two written forms of a number. `text` never uses an exponent and drops a zero fraction;
`debugText` keeps one digit after the point and moves to an exponent far from 1. -/
namespace FieldScript.Binary64

def zeros (n : Nat) : String := "".pushn '0' n

namespace Decimal

def digitText (d : Decimal) : String := toString d.digits

def positional (d : Decimal) : String :=
  let s := d.digitText
  if 0 ≤ d.exponent then s ++ zeros d.exponent.toNat
  else
    let places := (-d.exponent).toNat
    if places < s.length then
      (s.take (s.length - places)).toString ++ "." ++ (s.drop (s.length - places)).toString
    else "0." ++ zeros (places - s.length) ++ s

def scientific (d : Decimal) : String :=
  let s := d.digitText
  let power : Int := d.exponent + ((s.length : Int) - 1)
  let tail := if s.length ≤ 1 then "" else "." ++ (s.drop 1).toString
  (s.take 1).toString ++ tail ++ "e" ++ toString power

end Decimal

def signText (x : Binary64) : String := if x.negative then "-" else ""

def isZero (x : Binary64) : Bool := x.magnitude == 0

/-- Digits that read back to the same number. The sign of a NaN is not written. -/
def text (x : Binary64) : String :=
  if x.isNaN then "NaN"
  else if !x.isFinite then x.signText ++ "inf"
  else if x.isZero then x.signText ++ "0"
  else x.signText ++ x.shortest.positional

/-- Absolute values written positionally by `debugText`: at least 1e-4 and below 1e16. -/
def isModerate (x : Binary64) : Bool :=
  decide (0x3F1A36E2EB1C432D ≤ x.magnitude ∧ x.magnitude < 0x4341C37937E08000)

def debugText (x : Binary64) : String :=
  if x.isNaN || !x.isFinite then x.text
  else if x.isZero then x.signText ++ "0.0"
  else if x.isModerate then
    let d := x.shortest
    x.signText ++ d.positional ++ if 0 ≤ d.exponent then ".0" else ""
  else x.signText ++ x.shortest.scientific

end FieldScript.Binary64
