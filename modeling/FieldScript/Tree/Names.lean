import FieldScript.Tree

/-! The names a tree reads and the names it writes, each once, in the order of first mention. -/
namespace FieldScript

/-- The list with `name` at the end, unless it is there already. -/
def mention (names : List String) (name : String) : List String :=
  if name ∈ names then names else names ++ [name]

def mentionLeaf (names : List String) (leaf : Leaf) : List String :=
  match leaf.name? with
  | some name => mention names name
  | none => names

namespace Tree

mutual

def mentionInputs (names : List String) : Tree → List String
  | .leaf content => mentionLeaf names content
  | .call _ args => mentionArgs names args
  | .arith chain => chain.operands.foldl mentionLeaf names
  | .tests chain => chain.operands.foldl mentionLeaf names
  | .assign _ value => mentionInputs names value
  | .guarded test _ value => mentionInputs (test.operands.foldl mentionLeaf names) value
  | .branched test _ value _ value' =>
    mentionInputs (mentionInputs (test.operands.foldl mentionLeaf names) value) value'

def mentionArgs (names : List String) : List Tree → List String
  | [] => names
  | arg :: rest => mentionArgs (mentionInputs names arg) rest

end

def inputs (tree : Tree) : List String := tree.mentionInputs []

def argInputs (args : List Tree) : List String := mentionArgs [] args

def outputs (tree : Tree) : List String :=
  tree.branches.foldl (fun names branch => mention names branch.1.targetName) []

end Tree

end FieldScript
