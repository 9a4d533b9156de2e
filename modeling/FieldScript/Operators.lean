import FieldScript.EvalError
import FieldScript.Membership
import FieldScript.Tree

/-! Operators on present values. A missing operand never gets here; a result that is no finite
number is missing. -/
namespace FieldScript

def finite (value : Binary64) : Option Binary64 := if value.isFinite then some value else none

def ArithOp.apply : ArithOp → Binary64 → Binary64 → Option Binary64
  | .add, a, b => finite (a + b)
  | .sub, a, b => finite (a - b)
  | .mul, a, b => finite (a * b)
  | .div, a, b => if b.same 0 then none else finite (a / b)

def BoolOp.apply : BoolOp → Bool → Bool → Bool
  | .and, a, b => a && b
  | .or, a, b => a || b

def Comparison.holds : Comparison → Binary64 → Binary64 → Bool
  | .lt, a, b => decide (a < b)
  | .le, a, b => decide (a ≤ b)
  | .gt, a, b => decide (b < a)
  | .ge, a, b => decide (b ≤ a)
  | .eq, a, b => a.same b
  | .ne, a, b => !a.same b

def ArithChain.valueFrom (read : Leaf → Option Binary64) (acc : Binary64) :
    List (ArithOp × Leaf) → Option Binary64
  | [] => some acc
  | (op, leaf) :: rest => do
    let value ← read leaf
    let next ← op.apply acc value
    valueFrom read next rest

def ArithChain.value (read : Leaf → Option Binary64) (chain : ArithChain) : Option Binary64 := do
  valueFrom read (← read chain.first) chain.rest

/-- Against the word `missing`, equality asks whether the other side is missing. A missing operand
makes any other test false. -/
def Test.holds (read : Leaf → Option Binary64) (test : Test) : Bool :=
  if test.left.isMissing || test.right.isMissing then
    let other := read (if test.right.isMissing then test.left else test.right)
    match test.comparison with
    | .eq => other.isNone
    | .ne => other.isSome
    | _ => false
  else
    match read test.left, read test.right with
    | some a, some b => test.comparison.holds a b
    | _, _ => false

/-- Left to right, with no precedence of one operator over the other. -/
def TestChain.holds (read : Leaf → Option Binary64) (chain : TestChain) : Bool :=
  chain.rest.foldl (fun acc (op, test) => op.apply acc (test.holds read)) (chain.first.holds read)

/-- Consecutive pairs; a last odd item is dropped. -/
def pairUp {α : Type} : List α → List (α × α)
  | a :: b :: rest => (a, b) :: pairUp rest
  | _ => []

/-- The mean of values; sums start at the negative zero, which changes no addend. -/
def mean (values : List Binary64) : Binary64 :=
  Binary64.sum .negZero values / Binary64.ofNat values.length

def weightedSums (pairs : List (Binary64 × Binary64)) : Binary64 × Binary64 :=
  pairs.foldl (fun (sum, weight) (v, w) => (sum + v * w, weight + w)) (0, 0)

def weightedMean (pairs : List (Binary64 × Binary64)) : Option Binary64 :=
  let (sum, weight) := weightedSums pairs
  if weight.same 0 then none else finite (sum / weight)

def isMasked (x : Binary64) (ranges : List (Binary64 × Binary64)) : Bool :=
  ranges.any fun range => decide (range.1 ≤ x ∧ x ≤ range.2)

def Builtin.pointwise : Builtin → List Binary64 → Except EvalError (Option Binary64)
  | .abs, x :: _ => .ok (finite x.abs)
  | .sqrt, x :: _ => .ok (finite x.sqrt)
  | .log, x :: _ => .ok (finite x.ln)
  | .log10, x :: _ => .ok (finite x.log10)
  | .exp, x :: _ => .ok (finite x.exp)
  | .dbToLinear, x :: _ => .ok (finite (Binary64.ten.pow (x / .ten)))
  | .linearToDb, x :: _ => .ok (finite (.ten * x.log10))
  | .min, xs => .ok (finite (xs.foldl Binary64.min .infinity))
  | .max, xs => .ok (finite (xs.foldl Binary64.max .negInfinity))
  | .average, xs => .ok (finite (mean xs))
  | .weightedAverage, xs => .ok (weightedMean (pairUp xs))
  | .fuzzy, x :: points =>
    match pairUp points with
    | first :: rest => .ok (finite (Membership.interpolate x first rest))
    | [] => .error .outOfBounds
  | .trapezoid, x :: a :: b :: c :: d :: _ => .ok (finite (Membership.trapezoid x a b c d))
  | .sRemap, x :: a :: b :: _ => .ok (finite (Membership.sShape x a b))
  | .mask, x :: ranges => .ok (if isMasked x (pairUp ranges) then none else finite x)
  | .maskMissing, x :: _ => .ok (finite x)
  | _, _ => .error .outOfBounds

def deviation (values : List Binary64) : Binary64 :=
  let centre := mean values
  (mean (values.map fun v => (v - centre) * (v - centre))).sqrt

def sortedTotally (values : List Binary64) : List Binary64 :=
  values.mergeSort fun a b => decide (a.totalKey ≤ b.totalKey)

def middle (sorted : List Binary64) : Option Binary64 :=
  let half := sorted.length / 2
  if sorted.length % 2 = 0 then do
    let low ← sorted[half - 1]?
    let high ← sorted[half]?
    some ((low + high) / 2)
  else sorted[half]?

def Builtin.statistic : Builtin → List Binary64 → Except EvalError (Option Binary64)
  | .smooth, values => .ok (if values.isEmpty then none else some (mean values))
  | .stddev, values => .ok (if values.length < 2 then none else some (deviation values))
  | .median, values =>
    if values.isEmpty then .ok none
    else
      match middle (sortedTotally values) with
      | some value => .ok (some value)
      | none => .error .outOfBounds
  | _, _ => .ok none

end FieldScript
