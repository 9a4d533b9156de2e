import FieldScript.EvalError
import FieldScript.Tree.Text

/-! Checked construction. A built-in call is built only with arguments the operator can use, an
assignment only with a name on the left and a value on the right. -/
namespace FieldScript

def Leaf.constant : Leaf → Except EvalError Binary64
  | .number _ value => .ok value
  | .variable name => .error (.misuse (.variableConstant name))
  | .missing => .error (.misuse .missingConstant)

/-- The value a tree has in every scope; only numbers have one. -/
def Tree.constant : Tree → Except EvalError Binary64
  | .leaf content => content.constant
  | tree => .error (.misuse (.treeConstant tree.text))

namespace Builtin

/-- A window operator reads a named field; its length is a constant of at least 1. -/
def checkWindow (op : Builtin) : List Tree → Except EvalError Unit
  | [field, length] =>
    match field.leafName? with
    | none => .error (.badArguments op.keyword .noFieldName)
    | some _ => do
      let width ← length.constant
      if 1 ≤ width then pure () else .error (.badArguments op.keyword (.windowLength width))
  | _ => .error .outOfBounds

def checkArgs (op : Builtin) (args : List Tree) : Except EvalError Unit :=
  if !op.arity.accepts args.length then
    .error (.badArguments op.keyword (.count op.signature args.length))
  else if op.isWindow then op.checkWindow args
  else pure ()

end Builtin

namespace Tree

def buildBuiltin (op : Builtin) (args : List Tree) : Except EvalError Tree := do
  op.checkArgs args
  pure (.call (.builtin op) args)

def buildCall (keyword : String) (args : List Tree) : Except EvalError Tree :=
  match Builtin.ofKeyword? keyword with
  | some op => buildBuiltin op args
  | none => .ok (.call (.user keyword) args)

def buildAssign (target : Leaf) (value : Tree) : Except EvalError Tree :=
  if !target.isVariable then .error (.misuse (.assignmentTarget target.text))
  else if value.isStatement then .error (.misuse (.statementAsValue value.text))
  else .ok (.assign target value)

end Tree

end FieldScript
