import FieldScript.Dump
import FieldScript.Tree.Text

/-! Trees as structured debug output. -/
namespace FieldScript

def Builtin.dumpName : Builtin → String
  | .abs => "Abs"
  | .sqrt => "Sqrt"
  | .log => "Log"
  | .log10 => "Log10"
  | .exp => "Exp"
  | .dbToLinear => "DbToLinear"
  | .linearToDb => "LinearToDb"
  | .min => "Min"
  | .max => "Max"
  | .average => "Average"
  | .weightedAverage => "WeightedAverage"
  | .fuzzy => "Fuzzy"
  | .trapezoid => "Trapezoid"
  | .sRemap => "SRemap"
  | .mask => "Mask"
  | .maskMissing => "MaskMissingToMissing"
  | .smooth => "Smooth"
  | .stddev => "StdDev"
  | .median => "Median"

def ArithOp.dump : ArithOp → Dump
  | .add => .atom "Add"
  | .sub => .atom "Sub"
  | .mul => .atom "Mul"
  | .div => .atom "Div"

def BoolOp.dump : BoolOp → Dump
  | .and => .atom "And"
  | .or => .atom "Or"

def Comparison.dump : Comparison → Dump
  | .lt => .atom "Lt"
  | .le => .atom "Le"
  | .gt => .atom "Gt"
  | .ge => .atom "Ge"
  | .eq => .atom "Eq"
  | .ne => .atom "Ne"

def Callee.dump : Callee → Dump
  | .builtin op => .call "Builtin" [.atom op.dumpName]
  | .user keyword => .call "User" [.text keyword]

def Leaf.dump : Leaf → Dump
  | .variable name => .call "Variable" [.text name]
  | .number label value =>
    .record "Number" [("label", .text label), ("value", .atom value.debugText)]
  | .missing => .atom "Missing"

def Test.dump (test : Test) : Dump :=
  .record "LogicalTerm"
    [("left", test.left.dump), ("compare", test.comparison.dump), ("right", test.right.dump)]

def ArithChain.dump (chain : ArithChain) : Dump :=
  .record "BinaryArgs"
    [("first", chain.first.dump),
     ("rest", .list (chain.rest.map fun (op, leaf) => .call "" [op.dump, leaf.dump]))]

def TestChain.dump (chain : TestChain) : Dump :=
  .record "LogicalArgs"
    [("first", chain.first.dump),
     ("rest", .list (chain.rest.map fun (op, test) => .call "" [op.dump, test.dump]))]

namespace Tree

def dumpAssign (target : Leaf) (value : Dump) : Dump :=
  .record "AssignmentNode" [("target", target.dump), ("value", value)]

mutual

def dump : Tree → Dump
  | .leaf content => .call "Leaf" [content.dump]
  | .call callee args =>
    .call "Unary" [.record "UnaryNode" [("kind", callee.dump), ("args", .list (dumpArgs args))]]
  | .arith chain => .call "Binary" [chain.dump]
  | .tests chain => .call "Logical" [chain.dump]
  | .assign target value => .call "Assignment" [dumpAssign target (dump value)]
  | .guarded test target value =>
    .call "Conditional" [.record "ConditionalNode"
      [("test", test.dump), ("then_branch", dumpAssign target (dump value)),
       ("else_branch", .atom "None")]]
  | .branched test target value target' value' =>
    .call "Conditional" [.record "ConditionalNode"
      [("test", test.dump), ("then_branch", dumpAssign target (dump value)),
       ("else_branch", .call "Some" [dumpAssign target' (dump value')])]]

def dumpArgs : List Tree → List Dump
  | [] => []
  | arg :: rest => dump arg :: dumpArgs rest

end

end Tree

end FieldScript
