import FieldScript.Proofs.Evaluate.Totality

/-! How deep the calls of a tree nest. This is what the parentheses of its text show, and evaluation
opens at most one level more. -/
namespace FieldScript.Tree

mutual

/-- The calls around the innermost argument: 1 for `f(x)`, 2 for `f(g(x))`. -/
def callDepth : Tree → Nat
  | .leaf _ | .arith _ | .tests _ => 0
  | .call _ args => argsDepth args + 1
  | .assign _ value | .guarded _ _ value => callDepth value
  | .branched _ _ value _ value' => max (callDepth value) (callDepth value')

def argsDepth : List Tree → Nat
  | [] => 0
  | arg :: rest => max (callDepth arg) (argsDepth rest)

end

/-- How deep the parentheses of a statement nest; those around a test count too. -/
def parenDepth : Tree → Nat
  | .guarded test target value => max 1 (callDepth (.guarded test target value))
  | .branched test target value target' value' =>
    max 1 (callDepth (.branched test target value target' value'))
  | tree => callDepth tree

def deepest (measure : Tree → Nat) : List Tree → Nat
  | [] => 0
  | tree :: rest => max (measure tree) (deepest measure rest)

theorem deepest_le_iff {measure : Tree → Nat} {trees : List Tree} {bound : Nat} :
    deepest measure trees ≤ bound ↔ ∀ tree ∈ trees, measure tree ≤ bound := by
  induction trees with
  | nil => simp [deepest]
  | cons tree rest ih => rw [deepest, Nat.max_le, ih, List.forall_mem_cons]

theorem argsDepth_eq (args : List Tree) : argsDepth args = deepest callDepth args := by
  induction args with
  | nil => rfl
  | cons arg rest ih => rw [argsDepth, deepest, ih]

theorem callDepth_le_argsDepth {args : List Tree} {arg : Tree} (h : arg ∈ args) :
    arg.callDepth ≤ argsDepth args := by
  rw [argsDepth_eq]
  exact deepest_le_iff.mp (Nat.le_refl _) arg h

theorem argsHeight_le {args : List Tree} {bound : Nat} (h : ∀ arg ∈ args, arg.height ≤ bound) :
    argsHeight args ≤ bound := by
  induction args with
  | nil => exact Nat.zero_le bound
  | cons arg rest ih =>
    obtain ⟨harg, hrest⟩ := List.forall_mem_cons.mp h
    rw [argsHeight]
    exact Nat.max_le.mpr ⟨harg, ih hrest⟩

theorem height_le_callDepth (tree : Tree) : tree.height ≤ tree.callDepth + 1 := by
  induction tree using induct with
  | call callee args ih =>
    have hargs : argsHeight args ≤ argsDepth args + 1 := argsHeight_le fun arg harg =>
      Nat.le_trans (ih arg harg) (Nat.succ_le_succ (callDepth_le_argsDepth harg))
    cases callee with
    | builtin op =>
      rw [height, callDepth]
      split <;> omega
    | user keyword =>
      rw [height, callDepth]
      · omega
      · rintro op args' ⟨⟩
  | _ =>
    rw [height]
    · omega
    · rintro op args ⟨⟩

theorem callDepth_branch_le {tree : Tree} {branch : Leaf × Tree} (h : branch ∈ tree.branches) :
    branch.2.callDepth ≤ tree.callDepth := by
  cases tree with
  | assign target value | guarded test target value =>
    cases List.mem_singleton.mp h
    exact Nat.le_refl _
  | branched test target value target' value' =>
    rw [callDepth]
    rcases List.mem_cons.mp h with rfl | hother
    · exact Nat.le_max_left _ _
    · cases List.mem_singleton.mp hother
      exact Nat.le_max_right _ _
  | _ => cases h

theorem callDepth_le_parenDepth (tree : Tree) : tree.callDepth ≤ tree.parenDepth := by
  unfold parenDepth
  split <;> omega

theorem parenDepth_le (tree : Tree) : tree.parenDepth ≤ max 1 tree.callDepth := by
  unfold parenDepth
  split <;> omega

end FieldScript.Tree
