/-! The operators the engine evaluates itself: the word a script calls one by, its signature and
description for help output, and how many arguments it takes. -/
namespace FieldScript

inductive Builtin where
  | abs
  | sqrt
  | log
  | log10
  | exp
  | dbToLinear
  | linearToDb
  | min
  | max
  | average
  | weightedAverage
  | fuzzy
  | trapezoid
  | sRemap
  | mask
  | maskMissing
  | smooth
  | stddev
  | median
  deriving DecidableEq

namespace Builtin

/-- Every operator once. The order is that of the wire tags. -/
def all : List Builtin :=
  [abs, sqrt, log, log10, exp, dbToLinear, linearToDb, min, max, average, weightedAverage,
    fuzzy, trapezoid, sRemap, mask, maskMissing, smooth, stddev, median]

def keyword : Builtin → String
  | abs => "abs"
  | sqrt => "sqrt"
  | log => "log"
  | log10 => "log10"
  | exp => "exp"
  | dbToLinear => "db2linear"
  | linearToDb => "linear2db"
  | min => "min"
  | max => "max"
  | average => "average"
  | weightedAverage => "weighted_average"
  | fuzzy => "fuzzy"
  | trapezoid => "trapezoid"
  | sRemap => "s_remap"
  | mask => "mask"
  | maskMissing => "mask_missing_to_missing"
  | smooth => "smooth"
  | stddev => "stddev"
  | median => "median"

def ofKeyword? (word : String) : Option Builtin := all.find? fun op => op.keyword == word

def signature : Builtin → String
  | abs => "abs(x)"
  | sqrt => "sqrt(x)"
  | log => "log(x)"
  | log10 => "log10(x)"
  | exp => "exp(x)"
  | dbToLinear => "db2linear(x)"
  | linearToDb => "linear2db(x)"
  | min => "min(x1, x2, ...)"
  | max => "max(x1, x2, ...)"
  | average => "average(x1, x2, ...)"
  | weightedAverage => "weighted_average(x1, w1, x2, w2, ...)"
  | fuzzy => "fuzzy(x, x0, y0, x1, y1, ...)"
  | trapezoid => "trapezoid(x, a, b, c, d)"
  | sRemap => "s_remap(x, a, b)"
  | mask => "mask(x, lo0, hi0, lo1, hi1, ...)"
  | maskMissing => "mask_missing_to_missing(x, m)"
  | smooth => "smooth(F, n)"
  | stddev => "stddev(F, n)"
  | median => "median(F, n)"

def description : Builtin → String
  | abs => "Absolute value."
  | sqrt => "Square root; missing for negative input."
  | log => "Natural logarithm; missing for input <= 0."
  | log10 => "Base 10 logarithm; missing for input <= 0."
  | exp => "Exponential."
  | dbToLinear => "Convert decibels to linear units, 10^(x/10)."
  | linearToDb => "Convert linear units to decibels, 10*log10(x)."
  | min => "Smallest of the arguments."
  | max => "Largest of the arguments."
  | average => "Arithmetic mean of the arguments."
  | weightedAverage =>
    "Weighted mean of value/weight pairs; missing when the weights sum to zero."
  | fuzzy => "Piecewise linear remap through the (x, y) points, clamped to the end values."
  | trapezoid => "Trapezoidal membership: 0 outside [a, d], 1 on [b, c], linear in between."
  | sRemap => "S-shaped membership rising from 0 at a to 1 at b."
  | mask => "Missing where x lies inside any [lo, hi] range, x elsewhere."
  | maskMissing => "Missing where m is missing, x elsewhere."
  | smooth => "Mean of field F over a centered window of n points, skipping missing points."
  | stddev => "Standard deviation of field F over a centered window of n points."
  | median => "Median of field F over a centered window of n points."

inductive Arity where
  | exactly (count : Nat)
  | atLeast (count : Nat)
  | valueThenPairs
  | pairs
  deriving DecidableEq

def Arity.accepts : Arity → Nat → Bool
  | .exactly k, n => n == k
  | .atLeast k, n => decide (k ≤ n)
  | .valueThenPairs, n => decide (3 ≤ n ∧ n % 2 = 1)
  | .pairs, n => decide (2 ≤ n ∧ n % 2 = 0)

def arity : Builtin → Arity
  | abs | sqrt | log | log10 | exp | dbToLinear | linearToDb => .exactly 1
  | min | max => .atLeast 2
  | average => .atLeast 1
  | weightedAverage => .pairs
  | fuzzy | mask => .valueThenPairs
  | trapezoid => .exactly 5
  | sRemap => .exactly 3
  | maskMissing | smooth | stddev | median => .exactly 2

def isWindow : Builtin → Bool
  | smooth | stddev | median => true
  | _ => false

end Builtin

end FieldScript
