import FieldScript.Binary64

/-! Reading a number: an optional sign, then digits with an optional point and exponent, or the
name of an infinity or a NaN in any letter case. The whole text must be used, and the nearest
binary64 number is taken. -/
namespace FieldScript.Binary64

def digitValue (c : Char) : Nat := c.toNat - '0'.toNat

def digitsValue (cs : List Char) : Nat := cs.foldl (fun n c => 10 * n + digitValue c) 0

def splitSign : List Char → Bool × List Char
  | '-' :: cs => (true, cs)
  | '+' :: cs => (false, cs)
  | cs => (false, cs)

/-- The decimal point falls `places` digits before the end of `digits`. -/
structure Mantissa where
  digits : List Char
  places : Nat

def splitMantissa (cs : List Char) : Option (Mantissa × List Char) :=
  let whole := cs.takeWhile Char.isDigit
  let (fraction, rest) :=
    match cs.dropWhile Char.isDigit with
    | '.' :: more => (more.takeWhile Char.isDigit, more.dropWhile Char.isDigit)
    | more => ([], more)
  if whole.isEmpty && fraction.isEmpty then none
  else some (⟨whole ++ fraction, fraction.length⟩, rest)

def readExponent : List Char → Option Int
  | [] => some 0
  | c :: cs =>
    if c = 'e' ∨ c = 'E' then
      let (minus, digits) := splitSign cs
      if digits.isEmpty || !digits.all Char.isDigit then none
      else some (if minus then -(digitsValue digits : Int) else digitsValue digits)
    else none

/-- The binary64 number nearest to `m · 10 ^ e`. Beyond the range of the format the answer is
known from the number of digits, and no power of ten is computed. -/
def ofDecimal (m : Nat) (e : Int) : Binary64 :=
  let top : Int := (toString m).length + e
  if m = 0 ∨ top < -330 then zero
  else if 310 < top then infinity
  else if 0 ≤ e then ofFloat (Float.ofScientific m false e.toNat)
  else ofFloat (Float.ofScientific m true (-e).toNat)

def readMagnitude? (cs : List Char) : Option Binary64 :=
  match cs.map Char.toLower with
  | ['i', 'n', 'f'] | ['i', 'n', 'f', 'i', 'n', 'i', 't', 'y'] => some infinity
  | ['n', 'a', 'n'] => some ⟨0x7FF8000000000000⟩
  | _ => do
    let (mantissa, rest) ← splitMantissa cs
    let e ← readExponent rest
    some (ofDecimal (digitsValue mantissa.digits) (e - mantissa.places))

def ofChars? (cs : List Char) : Option Binary64 :=
  let (minus, rest) := splitSign cs
  (readMagnitude? rest).map fun x => if minus then x.neg else x

def ofText? (s : String) : Option Binary64 := ofChars? s.toList

end FieldScript.Binary64
