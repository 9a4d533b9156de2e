import FieldScript.Tree.Build

/-! Properties of a tree at every depth, and the two checks that its constructors make: a built-in
call has arguments its operator can use, an assignment has a name on the left and a value on the
right. -/
namespace FieldScript.Tree

theorem induct {motive : Tree → Prop} (leaf : ∀ content, motive (.leaf content))
    (call : ∀ callee args, (∀ arg ∈ args, motive arg) → motive (.call callee args))
    (arith : ∀ chain, motive (.arith chain)) (tests : ∀ chain, motive (.tests chain))
    (assign : ∀ target value, motive value → motive (.assign target value))
    (guarded : ∀ test target value, motive value → motive (.guarded test target value))
    (branched : ∀ test target value target' value', motive value → motive value' →
      motive (.branched test target value target' value')) (tree : Tree) : motive tree := by
  refine @Tree.rec motive (fun args => ∀ arg ∈ args, motive arg) leaf call arith tests assign
    guarded branched ?_ ?_ tree
  · intro arg harg
    cases harg
  · intro first rest hfirst hrest arg harg
    rcases List.mem_cons.mp harg with rfl | harg
    · exact hfirst
    · exact hrest arg harg

mutual

/-- The property holds of the tree and of all trees inside it. -/
def Every (p : Tree → Prop) : Tree → Prop
  | .leaf content => p (.leaf content)
  | .call callee args => p (.call callee args) ∧ EveryArg p args
  | .arith chain => p (.arith chain)
  | .tests chain => p (.tests chain)
  | .assign target value => p (.assign target value) ∧ Every p value
  | .guarded test target value => p (.guarded test target value) ∧ Every p value
  | .branched test target value target' value' =>
    p (.branched test target value target' value') ∧ Every p value ∧ Every p value'

def EveryArg (p : Tree → Prop) : List Tree → Prop
  | [] => True
  | arg :: rest => Every p arg ∧ EveryArg p rest

end

variable {p q : Tree → Prop}

theorem everyArg_iff {args : List Tree} : EveryArg p args ↔ ∀ arg ∈ args, Every p arg := by
  induction args with
  | nil => simp [EveryArg]
  | cons arg rest ih => simp [EveryArg, ih]

theorem every_call {callee : Callee} {args : List Tree} :
    Every p (.call callee args) ↔ p (.call callee args) ∧ ∀ arg ∈ args, Every p arg := by
  rw [Every, everyArg_iff]

theorem every_and {tree : Tree} :
    Every (fun t => p t ∧ q t) tree ↔ Every p tree ∧ Every q tree := by
  induction tree using induct with
  | leaf content => rfl
  | call callee args ih =>
    simp only [every_call]
    constructor
    · rintro ⟨⟨hp, hq⟩, hargs⟩
      exact ⟨⟨hp, fun arg harg => ((ih arg harg).mp (hargs arg harg)).1⟩, hq, fun arg harg =>
        ((ih arg harg).mp (hargs arg harg)).2⟩
    · rintro ⟨⟨hp, hargs⟩, hq, hargs'⟩
      exact ⟨⟨hp, hq⟩, fun arg harg => (ih arg harg).mpr ⟨hargs arg harg, hargs' arg harg⟩⟩
  | arith chain => rfl
  | tests chain => rfl
  | assign target value ih =>
    simp only [Every, ih]
    exact and_and_and_comm
  | guarded test target value ih =>
    simp only [Every, ih]
    exact and_and_and_comm
  | branched test target value target' value' ih ih' =>
    simp only [Every, ih, ih']
    grind

theorem Every.mono {tree : Tree} (h : Every p tree) (imp : ∀ t, p t → q t) : Every q tree := by
  have hboth : p = fun t => p t ∧ q t :=
    funext fun t => propext ⟨fun hp => ⟨hp, imp t hp⟩, And.left⟩
  rw [hboth] at h
  exact (every_and.mp h).2

theorem Every.branch {tree : Tree} (h : Every p tree) {branch : Leaf × Tree}
    (hbranch : branch ∈ tree.branches) : Every p branch.2 := by
  cases tree with
  | assign target value =>
    cases List.mem_singleton.mp hbranch
    exact h.2
  | guarded test target value =>
    cases List.mem_singleton.mp hbranch
    exact h.2
  | branched test target value target' value' =>
    rcases List.mem_cons.mp hbranch with rfl | hother
    · exact h.2.1
    · cases List.mem_singleton.mp hother
      exact h.2.2
  | _ => cases hbranch

def CallChecked : Tree → Prop
  | .call (.builtin op) args => op.checkArgs args = .ok ()
  | _ => True

def AssignmentsChecked (tree : Tree) : Prop :=
  ∀ branch ∈ tree.branches, branch.1.isVariable = true ∧ branch.2.isStatement = false

/-- What checked construction promises of a tree, at every depth. -/
def Built (tree : Tree) : Prop := tree.Every fun t => t.CallChecked ∧ t.AssignmentsChecked

end FieldScript.Tree
