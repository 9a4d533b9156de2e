import FieldScript.Tree.Text

/-! The written form of a tree as characters, in the parts in which it is read: each step of a
chain and each further argument with what stands in front of it, each assignment as a whole. -/
namespace FieldScript.Tree

section Steps

variable {α β : Type} (symbol : α → String) (part : β → String)

def stepForm (step : α × β) : List Char :=
  ' ' :: ((symbol step.1).toList ++ ' ' :: (part step.2).toList)

theorem toList_steps (steps : List (α × β)) (first : String) :
    (steps.foldl (fun s step => s ++ " " ++ symbol step.1 ++ " " ++ part step.2) first).toList =
      first.toList ++ steps.flatMap (stepForm symbol part) := by
  induction steps generalizing first with
  | nil => simp
  | cons step steps ih =>
    rw [List.foldl_cons, ih]
    simp [stepForm]

end Steps

abbrev arithForm : ArithOp × Leaf → List Char := stepForm ArithOp.symbol Leaf.text

abbrev testForm : BoolOp × Test → List Char := stepForm BoolOp.symbol Test.text

def argForm (arg : Tree) : List Char := ',' :: ' ' :: arg.text.toList

def assignForm (target : Leaf) (value : Tree) : List Char :=
  target.text.toList ++ ' ' :: '=' :: ' ' :: value.text.toList

theorem toList_test (test : Test) : test.text.toList = test.left.text.toList ++
    ' ' :: (test.comparison.symbol.toList ++ ' ' :: test.right.text.toList) := by
  simp [Test.text]

theorem toList_arith (chain : ArithChain) : (text (.arith chain)).toList =
    chain.first.text.toList ++ chain.rest.flatMap arithForm :=
  toList_steps ArithOp.symbol Leaf.text chain.rest chain.first.text

theorem toList_testChain (chain : TestChain) : chain.text.toList =
    chain.first.text.toList ++ chain.rest.flatMap testForm :=
  toList_steps BoolOp.symbol Test.text chain.rest chain.first.text

theorem text_leaf (content : Leaf) : text (.leaf content) = content.text := rfl

theorem text_tests (chain : TestChain) : text (.tests chain) = chain.text := rfl

theorem argsText_cons (first next : Tree) (args : List Tree) :
    argsText (first :: next :: args) = first.text ++ ", " ++ argsText (next :: args) := rfl

theorem toList_args (arg : Tree) (args : List Tree) :
    (argsText (arg :: args)).toList = arg.text.toList ++ args.flatMap argForm := by
  induction args generalizing arg with
  | nil => exact (List.append_nil _).symm
  | cons next args ih =>
    rw [argsText_cons, String.toList_append, String.toList_append, ih, List.flatMap_cons]
    simp [argForm]

theorem toList_call (callee : Callee) (args : List Tree) : (text (.call callee args)).toList =
    callee.keyword.toList ++ '(' :: ((argsText args).toList ++ [')']) := by
  change (callee.keyword ++ "(" ++ argsText args ++ ")").toList = _
  simp

theorem toList_assign (target : Leaf) (value : Tree) :
    (text (.assign target value)).toList = assignForm target value := by
  change (target.text ++ " = " ++ value.text).toList = _
  simp [assignForm]

theorem toList_guarded (test : TestChain) (target : Leaf) (value : Tree) :
    (text (.guarded test target value)).toList =
      "if (".toList ++ (test.text.toList ++ (") then ".toList ++ assignForm target value)) := by
  change ("if (" ++ test.text ++ ") then " ++ target.text ++ " = " ++ value.text).toList = _
  simp [assignForm]

theorem toList_branched (test : TestChain) (target target' : Leaf) (value value' : Tree) :
    (text (.branched test target value target' value')).toList =
      (text (.guarded test target value)).toList ++
        (" else ".toList ++ assignForm target' value') := by
  change ("if (" ++ test.text ++ ") then " ++ target.text ++ " = " ++ value.text ++ " else " ++
    target'.text ++ " = " ++ value'.text).toList = _
  rw [toList_guarded]
  simp [assignForm]

end FieldScript.Tree
