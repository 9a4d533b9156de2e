/-! Binary64 numbers kept as their 64 bits. The runtime's floats fold every NaN into one, but the
wire form ships NaN bits unchanged and the median sorts by them, so the bits are the value. Order
is read off the bits; arithmetic is the machine's, with the choice of NaN spelled out. -/
namespace FieldScript

structure Binary64 where
  bits : UInt64
  deriving DecidableEq

namespace Binary64

def zero : Binary64 := ⟨0x0000000000000000⟩
def negZero : Binary64 := ⟨0x8000000000000000⟩
def one : Binary64 := ⟨0x3FF0000000000000⟩
def two : Binary64 := ⟨0x4000000000000000⟩
def ten : Binary64 := ⟨0x4024000000000000⟩
def infinity : Binary64 := ⟨0x7FF0000000000000⟩
def negInfinity : Binary64 := ⟨0xFFF0000000000000⟩

/-- The NaN of an operation that has no value on operands that are numbers. -/
def indefinite : Binary64 := ⟨0xFFF8000000000000⟩

instance : OfNat Binary64 0 := ⟨zero⟩
instance : OfNat Binary64 1 := ⟨one⟩
instance : OfNat Binary64 2 := ⟨two⟩
instance : Inhabited Binary64 := ⟨zero⟩

def signBit : Nat := 0x8000000000000000

def leadingBit : Nat := 0x10000000000000

def infiniteMagnitude : Nat := 0x7FF0000000000000

def negative (x : Binary64) : Bool := decide (signBit ≤ x.bits.toNat)

def magnitude (x : Binary64) : Nat := x.bits.toNat % signBit

def exponentField (x : Binary64) : Nat := x.magnitude / leadingBit
def fraction (x : Binary64) : Nat := x.magnitude % leadingBit

def isNaN (x : Binary64) : Bool := decide (infiniteMagnitude < x.magnitude)
def isFinite (x : Binary64) : Bool := decide (x.magnitude < infiniteMagnitude)

/-- A finite value is `significand · 2 ^ (unit - 1074)`, up to its sign. -/
def significand (x : Binary64) : Nat :=
  if x.exponentField = 0 then x.fraction else leadingBit + x.fraction

def unit (x : Binary64) : Nat := x.exponentField - 1

/-- Position on the number line; both zeros stand at 0. -/
def rank (x : Binary64) : Int := if x.negative then -(x.magnitude : Int) else x.magnitude

/-- No NaN is below, above or equal to anything. -/
instance : LT Binary64 := ⟨fun a b => a.isNaN = false ∧ b.isNaN = false ∧ a.rank < b.rank⟩
instance : LE Binary64 := ⟨fun a b => a.isNaN = false ∧ b.isNaN = false ∧ a.rank ≤ b.rank⟩

instance : DecidableLT Binary64 := fun a b =>
  inferInstanceAs (Decidable (a.isNaN = false ∧ b.isNaN = false ∧ a.rank < b.rank))
instance : DecidableLE Binary64 := fun a b =>
  inferInstanceAs (Decidable (a.isNaN = false ∧ b.isNaN = false ∧ a.rank ≤ b.rank))

def same (a b : Binary64) : Bool := decide (a ≤ b ∧ b ≤ a)

/-- The key of the order that also places NaNs and tells the zeros apart. -/
def totalKey (x : Binary64) : Int :=
  if x.negative then -(x.magnitude : Int) - 1 else x.magnitude

def toFloat (x : Binary64) : Float := Float.ofBits x.bits
def ofFloat (f : Float) : Binary64 := ⟨f.toBits⟩

def quiet (x : Binary64) : Binary64 := ⟨x.bits ||| 0x0008000000000000⟩

def settle (r : Binary64) : Binary64 := if r.isNaN then indefinite else r

/-- A NaN operand is the result, the left one first. -/
def lift₂ (f : Float → Float → Float) (a b : Binary64) : Binary64 :=
  if a.isNaN then a.quiet
  else if b.isNaN then b.quiet
  else settle (ofFloat (f a.toFloat b.toFloat))

def lift (f : Float → Float) (a : Binary64) : Binary64 :=
  if a.isNaN then a.quiet else settle (ofFloat (f a.toFloat))

instance : Add Binary64 := ⟨lift₂ (· + ·)⟩
instance : Sub Binary64 := ⟨lift₂ (· - ·)⟩
instance : Mul Binary64 := ⟨lift₂ (· * ·)⟩
instance : Div Binary64 := ⟨lift₂ (· / ·)⟩

def sqrt : Binary64 → Binary64 := lift Float.sqrt
def ln : Binary64 → Binary64 := lift Float.log
def log10 : Binary64 → Binary64 := lift Float.log10
def exp : Binary64 → Binary64 := lift Float.exp
def pow : Binary64 → Binary64 → Binary64 := lift₂ Float.pow

def abs (x : Binary64) : Binary64 := ⟨x.bits &&& 0x7FFFFFFFFFFFFFFF⟩
def neg (x : Binary64) : Binary64 := ⟨x.bits ^^^ 0x8000000000000000⟩

def ofNat (n : Nat) : Binary64 := ofFloat (Float.ofNat n)

/-- A NaN loses against any number; of two equal numbers, such as the zeros, the second counts. -/
def min (a b : Binary64) : Binary64 :=
  if a.isNaN then b else if b.isNaN || decide (a < b) then a else b

def max (a b : Binary64) : Binary64 :=
  if a.isNaN then b else if b.isNaN || decide (b < a) then a else b

def sum (start : Binary64) (xs : List Binary64) : Binary64 := xs.foldl (· + ·) start

def largestCount : Nat := 0xFFFFFFFFFFFFFFFF

/-- The whole part as a 64-bit count: clamped at both ends, and 0 for a NaN. -/
def truncate (x : Binary64) : Nat :=
  if x.isNaN || x.negative then 0
  else if x.isFinite then Nat.min (x.significand <<< x.unit >>> 1074) largestCount
  else largestCount

end Binary64

end FieldScript
