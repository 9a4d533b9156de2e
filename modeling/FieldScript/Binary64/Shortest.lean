import FieldScript.Binary64

/-! The fewest decimal digits that read back to a binary64 number. All comparisons are between
natural numbers: a candidate `c · 10 ^ p` and a point `x` quarters of a unit are brought to one
scale first, so nothing is rounded on the way. -/
namespace FieldScript.Binary64

structure Decimal where
  digits : Nat
  exponent : Int
  deriving DecidableEq

/-- The numbers that round to one binary64 value, in quarters of its last place:
`value · 2 ^ scale` lies between `low` and `high`, ends included iff `closed`. -/
structure Interval where
  low : Nat
  value : Nat
  high : Nat
  closed : Bool
  scale : Int

/-- Below a power of two the neighbour is only half as far away. -/
def interval (x : Binary64) : Interval where
  low := 4 * x.significand - if x.significand = leadingBit then 1 else 2
  value := 4 * x.significand
  high := 4 * x.significand + 2
  closed := x.significand % 2 == 0
  scale := (x.unit : Int) - 1076

namespace Interval

def candidateFactor (i : Interval) (p : Int) : Nat :=
  Nat.pow 10 p.toNat <<< (-i.scale).toNat

def pointFactor (i : Interval) (p : Int) : Nat :=
  Nat.pow 10 (-p).toNat <<< i.scale.toNat

def contains (i : Interval) (p : Int) (c : Nat) : Bool :=
  let point := c * i.candidateFactor p
  let f := i.pointFactor p
  if i.closed then decide (i.low * f ≤ point ∧ point ≤ i.high * f)
  else decide (i.low * f < point ∧ point < i.high * f)

/-- The multiple of `10 ^ p` nearest to the value among those inside, the upper one at a tie. -/
def nearest? (i : Interval) (p : Int) : Option Nat :=
  let f := i.candidateFactor p
  let v := i.value * i.pointFactor p
  let below := v / f
  let above := below + 1
  if below ≠ 0 ∧ i.contains p below ∧ (v - below * f < above * f - v ∨ ¬i.contains p above) then
    some below
  else if i.contains p above then some above
  else none

/-- The coarsest decimal grid with a point inside, searched downwards from `10 ^ p`. -/
def search (i : Interval) : Nat → Int → Option Decimal
  | 0, _ => none
  | fuel + 1, p =>
    match i.nearest? p with
    | some c => some ⟨c, p⟩
    | none => i.search fuel (p - 1)

end Interval

def decimalBound (x : Binary64) : Int :=
  ((Nat.log2 x.significand : Int) + x.unit - 1073) * 30103 / 100000 + 2

/-- The decimal of a finite number other than zero; seventeen digits are always enough. -/
def shortest (x : Binary64) : Decimal :=
  (x.interval.search 24 x.decimalBound).getD ⟨0, 0⟩

end FieldScript.Binary64
