import FieldScript.Proofs.Source.Reading
import FieldScript.Proofs.Tree.Every
import FieldScript.Binary64.Read

/-! Trees that a script can contain: words where the grammar wants words, numbers that are what
their labels say, chains with an operator in them, checked calls of values, and assignments of
values to names. -/
namespace FieldScript

def Leaf.WellFormed : Leaf → Prop
  | .variable name => Source.IsName name
  | .number label value =>
    Source.IsNumber label ∧ Binary64.ofText? label = some value ∧ value.isFinite = true
  | .missing => True

def Leaf.IsTarget : Leaf → Prop
  | .variable name => Source.IsName name
  | _ => False

theorem Leaf.IsTarget.exists_name {target : Leaf} (h : target.IsTarget) :
    ∃ name, target = .variable name ∧ Source.IsName name := by
  rcases target with name | ⟨label, value⟩ | _
  · exact ⟨name, rfl, h⟩
  · cases h
  · cases h

def Test.WellFormed (test : Test) : Prop := test.left.WellFormed ∧ test.right.WellFormed

def ArithChain.WellFormed (chain : ArithChain) : Prop :=
  chain.first.WellFormed ∧ chain.rest ≠ [] ∧ ∀ step ∈ chain.rest, step.2.WellFormed

def TestChain.WellFormed (chain : TestChain) : Prop :=
  chain.first.WellFormed ∧ ∀ step ∈ chain.rest, step.2.WellFormed

/-- The word of a host function is not that of an operator. -/
def Callee.WellFormed : Callee → Prop
  | .builtin _ => True
  | .user keyword => Source.IsName keyword ∧ Builtin.ofKeyword? keyword = none

namespace Tree

def NodeWellFormed : Tree → Prop
  | .leaf content => content.WellFormed
  | .call callee args =>
    callee.WellFormed ∧ CallChecked (.call callee args) ∧ ∀ arg ∈ args, arg.isStatement = false
  | .arith chain => chain.WellFormed
  | .tests chain => chain.WellFormed
  | .assign target value => target.IsTarget ∧ value.isStatement = false
  | .guarded test target value => test.WellFormed ∧ target.IsTarget ∧ value.isStatement = false
  | .branched test target value target' value' =>
    test.WellFormed ∧ (target.IsTarget ∧ value.isStatement = false) ∧
      target'.IsTarget ∧ value'.isStatement = false

theorem NodeWellFormed.callChecked {node : Tree} (h : node.NodeWellFormed) : node.CallChecked := by
  cases node with
  | call callee args => exact h.2.1
  | _ => trivial

structure WellFormedValue (tree : Tree) : Prop where
  value : tree.isStatement = false
  nodes : tree.Every NodeWellFormed

structure WellFormedStatement (tree : Tree) : Prop where
  statement : tree.isStatement = true
  nodes : tree.Every NodeWellFormed

theorem WellFormedStatement.branch {tree : Tree} (h : tree.WellFormedStatement)
    {branch : Leaf × Tree} (hbranch : branch ∈ tree.branches) : branch.2.WellFormedValue where
  value := by
    have hnodes := h.nodes
    cases tree with
    | assign target value =>
      cases List.mem_singleton.mp hbranch
      exact hnodes.1.2
    | guarded test target value =>
      cases List.mem_singleton.mp hbranch
      exact hnodes.1.2.2
    | branched test target value target' value' =>
      obtain ⟨_, first, other⟩ := hnodes.1
      rcases List.mem_cons.mp hbranch with rfl | hother
      · exact first.2
      · cases List.mem_singleton.mp hother
        exact other.2
    | _ => cases hbranch
  nodes := h.nodes.branch hbranch

end Tree

end FieldScript
