import FieldScript.Binary64.Text
import FieldScript.Tree

/-! The written form of a tree: one blank around every operator and after every comma, numbers as
they were written. Reading it back gives the tree again. -/
namespace FieldScript

def ArithOp.symbol : ArithOp → String
  | .add => "+"
  | .sub => "-"
  | .mul => "*"
  | .div => "/"

def BoolOp.symbol : BoolOp → String
  | .and => "&&"
  | .or => "||"

def Comparison.symbol : Comparison → String
  | .lt => "<"
  | .le => "<="
  | .gt => ">"
  | .ge => ">="
  | .eq => "=="
  | .ne => "!="

namespace Leaf

def text : Leaf → String
  | .variable name => name
  | .number label _ => label
  | .missing => "missing"

def ofNumber (value : Binary64) : Leaf := .number value.text value

end Leaf

def Test.text (test : Test) : String :=
  test.left.text ++ " " ++ test.comparison.symbol ++ " " ++ test.right.text

def ArithChain.text (chain : ArithChain) : String :=
  chain.rest.foldl (fun s (op, arg) => s ++ " " ++ op.symbol ++ " " ++ arg.text) chain.first.text

def TestChain.text (chain : TestChain) : String :=
  chain.rest.foldl (fun s (op, test) => s ++ " " ++ op.symbol ++ " " ++ test.text) chain.first.text

namespace Tree

mutual

def text : Tree → String
  | .leaf content => content.text
  | .call callee args => callee.keyword ++ "(" ++ argsText args ++ ")"
  | .arith chain => chain.text
  | .tests chain => chain.text
  | .assign target value => target.text ++ " = " ++ value.text
  | .guarded test target value =>
    "if (" ++ test.text ++ ") then " ++ target.text ++ " = " ++ value.text
  | .branched test target value target' value' =>
    "if (" ++ test.text ++ ") then " ++ target.text ++ " = " ++ value.text ++
      " else " ++ target'.text ++ " = " ++ value'.text

def argsText : List Tree → String
  | [] => ""
  | [arg] => arg.text
  | arg :: rest => arg.text ++ ", " ++ argsText rest

end

end Tree

end FieldScript
