import FieldScript.Field
import FieldScript.Operators
import FieldScript.Tree.Build
import FieldScript.Tree.Names

/-! Evaluation at one point. A call counts one level deeper than its arguments are nested, and
running out of levels is an error, not a missing value. -/
namespace FieldScript

structure Evaluator where
  lookup : String → Option Field
  maxDepth : Nat

namespace Evaluator

def readLeaf (ev : Evaluator) (index : Nat) : Leaf → Option Binary64
  | .number _ value => some value
  | .missing => none
  | .variable name => do (← ev.lookup name).read index

/-- The present values from `half` points before the centre to `half` points after it. -/
def window (field : Field) (centre half : Nat) : List Binary64 :=
  (List.range' (centre - half) (Nat.min (centre + half + 1) field.size - (centre - half))).filterMap
    field.read

/-- A statistic around a point; missing where the field is. -/
def windowAt (ev : Evaluator) (op : Builtin) (index : Nat) :
    List Tree → Except EvalError (Option Binary64)
  | [field, length] =>
    match field.leafName? with
    | none => .error (.badArguments op.keyword .noFieldName)
    | some name => do
      let width ← length.constant
      match ev.lookup name with
      | none => .error (.unresolvedName name)
      | some field =>
        if (field.read index).isNone then pure none
        else op.statistic (window field index (width.truncate / 2))
  | args => .error (.badArguments op.keyword (.count op.signature args.length))

mutual

/-- The value at a point, with `depth` levels already open. -/
def valueFrom (ev : Evaluator) (index depth : Nat) (tree : Tree) :
    Except EvalError (Option Binary64) :=
  if ev.maxDepth ≤ depth then .error (.stackOverflow depth ev.maxDepth)
  else
    match tree with
    | .leaf content => .ok (ev.readLeaf index content)
    | .arith chain => .ok (chain.value (ev.readLeaf index))
    | .tests chain => .ok (some (if chain.holds (ev.readLeaf index) then 1 else 0))
    | .call (.builtin op) args =>
      if op.isWindow then ev.windowAt op index args
      else
        match argsFrom ev index (depth + 1) args with
        | .error e => .error e
        | .ok none => .ok none
        | .ok (some values) => op.pointwise values
    | .call (.user keyword) _ => .error (.badArguments keyword .nested)
    | statement => .error (.misuse (.statementValue statement.text))

def argsFrom (ev : Evaluator) (index depth : Nat) :
    List Tree → Except EvalError (Option (List Binary64))
  | [] => .ok (some [])
  | arg :: rest =>
    match valueFrom ev index depth arg with
    | .error e => .error e
    | .ok none => .ok none
    | .ok (some value) =>
      match argsFrom ev index depth rest with
      | .error e => .error e
      | .ok none => .ok none
      | .ok (some values) => .ok (some (value :: values))

end

def valueAt (ev : Evaluator) (tree : Tree) (index : Nat) : Except EvalError (Option Binary64) :=
  ev.valueFrom index 0 tree

def valuesAt (ev : Evaluator) (tree : Tree) (count : Nat) :
    Except EvalError (List (Option Binary64)) :=
  (List.range count).mapM (ev.valueAt tree)

end Evaluator

namespace Tree

mutual

/-- Refuses what cannot be evaluated point by point, before any point is looked at. -/
def checkPointwise : Tree → Except EvalError Unit
  | .leaf _ | .arith _ | .tests _ => .ok ()
  | .call (.builtin op) args =>
    match op.checkArgs args with
    | .error e => .error e
    | .ok () => checkAll args
  | .call (.user keyword) _ => .error (.badArguments keyword .nested)
  | statement => .error (.misuse (.statementValue statement.text))

def checkAll : List Tree → Except EvalError Unit
  | [] => .ok ()
  | tree :: rest =>
    match checkPointwise tree with
    | .error e => .error e
    | .ok () => checkAll rest

end

end Tree

end FieldScript
