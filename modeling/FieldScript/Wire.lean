import FieldScript.Script
import FieldScript.Wire.Codec

/-! Wire form of trees and scripts. Tags count the cases of a type, parts follow in order. A
built-in call is read back only with arguments its operator can use. -/
namespace FieldScript.Wire

def leaf : Leaf → Bytes
  | .variable name => varint 0 ++ text name
  | .number label value => varint 1 ++ text label ++ number value
  | .missing => varint 2

def readLeaf : Decoder Leaf := do
  match ← readTag with
  | 0 => return .variable (← readText)
  | 1 => do
    let label ← readText
    return .number label (← readNumber)
  | 2 => return .missing
  | _ => fail

def arithOp : ArithOp → Bytes
  | .add => varint 0
  | .sub => varint 1
  | .mul => varint 2
  | .div => varint 3

def readArithOp : Decoder ArithOp := readCase [.add, .sub, .mul, .div]

def boolOp : BoolOp → Bytes
  | .and => varint 0
  | .or => varint 1

def readBoolOp : Decoder BoolOp := readCase [.and, .or]

def comparison : Comparison → Bytes
  | .lt => varint 0
  | .le => varint 1
  | .gt => varint 2
  | .ge => varint 3
  | .eq => varint 4
  | .ne => varint 5

def readComparison : Decoder Comparison := readCase [.lt, .le, .gt, .ge, .eq, .ne]

def callee : Callee → Bytes
  | .builtin op => varint 0 ++ varint (Builtin.all.idxOf op)
  | .user keyword => varint 1 ++ text keyword

def readCallee : Decoder Callee := do
  match ← readTag with
  | 0 => return .builtin (← readCase Builtin.all)
  | 1 => return .user (← readText)
  | _ => fail

def test (t : Test) : Bytes := leaf t.left ++ comparison t.comparison ++ leaf t.right

def readTest : Decoder Test := do
  let left ← readLeaf
  let op ← readComparison
  let right ← readLeaf
  return ⟨left, op, right⟩

def arithStep (step : ArithOp × Leaf) : Bytes := arithOp step.1 ++ leaf step.2

def readArithStep : Decoder (ArithOp × Leaf) := do
  let op ← readArithOp
  let operand ← readLeaf
  return (op, operand)

def testStep (step : BoolOp × Test) : Bytes := boolOp step.1 ++ test step.2

def readTestStep : Decoder (BoolOp × Test) := do
  let op ← readBoolOp
  let operand ← readTest
  return (op, operand)

def arithChain (chain : ArithChain) : Bytes := leaf chain.first ++ list arithStep chain.rest

def readArithChain : Decoder ArithChain := do
  let first ← readLeaf
  let rest ← readList readArithStep
  return ⟨first, rest⟩

def testChain (chain : TestChain) : Bytes := test chain.first ++ list testStep chain.rest

def readTestChain : Decoder TestChain := do
  let first ← readTest
  let rest ← readList readTestStep
  return ⟨first, rest⟩

mutual

def tree : Tree → Bytes
  | .leaf content => varint 0 ++ leaf content
  | .call head args => varint 1 ++ callee head ++ varint args.length ++ trees args
  | .arith chain => varint 2 ++ arithChain chain
  | .tests chain => varint 3 ++ testChain chain
  | .assign target value => varint 4 ++ leaf target ++ tree value
  | .guarded test target value =>
    varint 5 ++ testChain test ++ leaf target ++ tree value ++ [0]
  | .branched test target value target' value' =>
    varint 5 ++ testChain test ++ leaf target ++ tree value ++ [1] ++ leaf target' ++ tree value'

def trees : List Tree → Bytes
  | [] => []
  | first :: rest => tree first ++ trees rest

end

/-- A call as it was built: the arguments of a built-in are checked again. -/
def checkedCall (head : Callee) (args : List Tree) : Decoder Tree :=
  match head with
  | .user _ => pure (.call head args)
  | .builtin op =>
    match op.checkArgs args with
    | .ok () => pure (.call head args)
    | .error _ => fail

def readTreeWithin : Nat → Decoder Tree
  | 0 => fail
  | levels + 1 => do
    match ← readTag with
    | 0 => return .leaf (← readLeaf)
    | 1 => do
      let head ← readCallee
      let args ← readList (readTreeWithin levels)
      checkedCall head args
    | 2 => return .arith (← readArithChain)
    | 3 => return .tests (← readTestChain)
    | 4 => do
      let target ← readLeaf
      return .assign target (← readTreeWithin levels)
    | 5 => do
      let test ← readTestChain
      let target ← readLeaf
      let value ← readTreeWithin levels
      if ← readTruth then
        let target' ← readLeaf
        return .branched test target value target' (← readTreeWithin levels)
      else return .guarded test target value
    | _ => fail

/-- Every level of nesting takes a byte at least. -/
def readTree : Decoder Tree := fun bytes => readTreeWithin bytes.length bytes

def script (s : Script) : Bytes :=
  list tree s.statements ++ varint s.options.maxDepth ++ truth s.options.stopOnError

def readScript : Decoder Script := do
  let statements ← readList readTree
  let maxDepth ← readCount
  let stopOnError ← readTruth
  return ⟨statements, ⟨maxDepth, stopOnError⟩⟩

end FieldScript.Wire
