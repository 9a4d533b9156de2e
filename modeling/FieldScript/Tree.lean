import FieldScript.Binary64
import FieldScript.Builtin

/-! Expression trees. Arithmetic and logical chains hold leaves only and know no precedence: a
chain is folded from left to right. The type also admits trees that no script can contain, such as
an assignment inside a call, because a tree read off the wire is not checked for those. -/
namespace FieldScript

inductive Leaf where
  | variable (name : String)
  /-- A number together with the text it was written as. -/
  | number (label : String) (value : Binary64)
  | missing
  deriving DecidableEq

inductive ArithOp where
  | add
  | sub
  | mul
  | div
  deriving DecidableEq

inductive BoolOp where
  | and
  | or
  deriving DecidableEq

inductive Comparison where
  | lt
  | le
  | gt
  | ge
  | eq
  | ne
  deriving DecidableEq

structure ArithChain where
  first : Leaf
  rest : List (ArithOp × Leaf)
  deriving DecidableEq

structure Test where
  left : Leaf
  comparison : Comparison
  right : Leaf
  deriving DecidableEq

structure TestChain where
  first : Test
  rest : List (BoolOp × Test)
  deriving DecidableEq

inductive Callee where
  | builtin (op : Builtin)
  | user (keyword : String)
  deriving DecidableEq

inductive Tree where
  | leaf (content : Leaf)
  | call (callee : Callee) (args : List Tree)
  | arith (chain : ArithChain)
  | tests (chain : TestChain)
  | assign (target : Leaf) (value : Tree)
  | guarded (test : TestChain) (target : Leaf) (value : Tree)
  /-- `if (test) then target = value else target' = value'`. -/
  | branched (test : TestChain) (target : Leaf) (value : Tree) (target' : Leaf) (value' : Tree)

namespace Leaf

def name? : Leaf → Option String
  | .variable name => some name
  | _ => none

def isVariable : Leaf → Bool
  | .variable _ => true
  | _ => false

def isNumber : Leaf → Bool
  | .number _ _ => true
  | _ => false

def isMissing : Leaf → Bool
  | .missing => true
  | _ => false

def targetName (leaf : Leaf) : String := leaf.name?.getD ""

end Leaf

def ArithChain.operands (chain : ArithChain) : List Leaf := chain.first :: chain.rest.map (·.2)

def TestChain.tests (chain : TestChain) : List Test := chain.first :: chain.rest.map (·.2)

def TestChain.operands (chain : TestChain) : List Leaf :=
  chain.tests.flatMap fun test => [test.left, test.right]

def Callee.keyword : Callee → String
  | .builtin op => op.keyword
  | .user keyword => keyword

namespace Tree

def leafName? : Tree → Option String
  | .leaf content => content.name?
  | _ => none

def isLeaf : Tree → Bool
  | .leaf _ => true
  | _ => false

def isStatement : Tree → Bool
  | .assign .. | .guarded .. | .branched .. => true
  | _ => false

def userKeyword? : Tree → Option String
  | .call (.user keyword) _ => some keyword
  | _ => none

def branches : Tree → List (Leaf × Tree)
  | .assign target value => [(target, value)]
  | .guarded _ target value => [(target, value)]
  | .branched _ target value target' value' => [(target, value), (target', value')]
  | _ => []

end Tree

end FieldScript
