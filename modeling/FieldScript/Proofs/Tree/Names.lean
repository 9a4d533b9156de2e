import FieldScript.Proofs.Tree.Every
import FieldScript.Tree.Names

/-! Which names a tree mentions, apart from their order: those of its parts. The names it writes
are those of its branches, each once. -/
namespace FieldScript

theorem mem_mention {names : List String} {name other : String} :
    other ∈ mention names name ↔ other ∈ names ∨ other = name := by
  unfold mention
  by_cases h : name ∈ names
  · rw [if_pos h]
    constructor
    · exact .inl
    · rintro (hmem | rfl)
      · exact hmem
      · exact h
  · rw [if_neg h, List.mem_append, List.mem_singleton]

theorem nodup_mention {names : List String} (h : names.Nodup) (name : String) :
    (mention names name).Nodup := by
  unfold mention
  by_cases hmem : name ∈ names
  · rwa [if_pos hmem]
  · rw [if_neg hmem, List.nodup_append]
    refine ⟨h, by simp, fun other hother last hlast heq => hmem ?_⟩
    rwa [← List.mem_singleton.mp hlast, ← heq]

theorem mem_foldl_mention {names more : List String} {other : String} :
    other ∈ more.foldl mention names ↔ other ∈ names ∨ other ∈ more := by
  induction more generalizing names with
  | nil => simp
  | cons name more ih => rw [List.foldl_cons, ih, mem_mention, List.mem_cons, or_assoc]

theorem mem_mentionLeaf {names : List String} {leaf : Leaf} {other : String} :
    other ∈ mentionLeaf names leaf ↔ other ∈ names ∨ leaf.name? = some other := by
  unfold mentionLeaf
  cases leaf.name? with
  | none => simp
  | some name => rw [mem_mention, Option.some.injEq, eq_comm]

theorem mem_foldl_mentionLeaf {leaves : List Leaf} {names : List String} {other : String} :
    other ∈ leaves.foldl mentionLeaf names ↔
      other ∈ names ∨ ∃ leaf ∈ leaves, leaf.name? = some other := by
  induction leaves generalizing names with
  | nil => simp
  | cons leaf leaves ih =>
    simp only [List.foldl_cons, ih, mem_mentionLeaf, List.mem_cons, exists_eq_or_imp, or_assoc]

namespace Tree

variable {name : String}

theorem mem_mentionArgs {args : List Tree}
    (h : ∀ arg ∈ args, ∀ names, name ∈ mentionInputs names arg ↔ name ∈ names ∨ name ∈ arg.inputs)
    (names : List String) :
    name ∈ mentionArgs names args ↔ name ∈ names ∨ ∃ arg ∈ args, name ∈ arg.inputs := by
  induction args generalizing names with
  | nil => simp [mentionArgs]
  | cons arg rest ih =>
    have hrest := ih fun other hother => h other (List.mem_cons_of_mem arg hother)
    simp only [mentionArgs, hrest, h arg List.mem_cons_self, List.mem_cons, exists_eq_or_imp,
      or_assoc]

theorem mem_mentionInputs (tree : Tree) (names : List String) :
    name ∈ mentionInputs names tree ↔ name ∈ names ∨ name ∈ tree.inputs := by
  induction tree using induct generalizing names with
  | leaf content =>
    simp only [inputs, mentionInputs, mem_mentionLeaf, List.not_mem_nil, false_or]
  | call callee args ih => simp only [inputs, mentionInputs, mem_mentionArgs ih, List.not_mem_nil,
      false_or]
  | arith chain =>
    simp only [inputs, mentionInputs, mem_foldl_mentionLeaf, List.not_mem_nil, false_or]
  | tests chain =>
    simp only [inputs, mentionInputs, mem_foldl_mentionLeaf, List.not_mem_nil, false_or]
  | assign target value ih => exact ih names
  | guarded test target value ih =>
    have hvalue := ih (test.operands.foldl mentionLeaf [])
    rw [inputs, mentionInputs, mentionInputs, ih, hvalue]
    simp only [mem_foldl_mentionLeaf, List.not_mem_nil, false_or, or_assoc]
  | branched test target value target' value' ih ih' =>
    have hvalue := ih (test.operands.foldl mentionLeaf [])
    have hvalue' := ih' (mentionInputs (test.operands.foldl mentionLeaf []) value)
    rw [inputs, mentionInputs, mentionInputs, ih', ih, hvalue', hvalue]
    simp only [mem_foldl_mentionLeaf, List.not_mem_nil, false_or, or_assoc]

theorem mem_inputs_call {callee : Callee} {args : List Tree} :
    name ∈ (call callee args).inputs ↔ ∃ arg ∈ args, name ∈ arg.inputs := by
  have hargs : name ∈ mentionArgs [] args ↔ name ∈ [] ∨ ∃ arg ∈ args, name ∈ arg.inputs :=
    mem_mentionArgs (fun arg _ => mem_mentionInputs arg) []
  rw [inputs, mentionInputs, hargs]
  simp only [List.not_mem_nil, false_or]

theorem mem_inputs_of_branch {tree : Tree} {branch : Leaf × Tree} (h : branch ∈ tree.branches)
    (hname : name ∈ branch.2.inputs) : name ∈ tree.inputs := by
  cases tree with
  | assign target value =>
    cases List.mem_singleton.mp h
    exact hname
  | guarded test target value =>
    cases List.mem_singleton.mp h
    exact (mem_mentionInputs value _).mpr (.inr hname)
  | branched test target value target' value' =>
    rw [inputs, mentionInputs, mem_mentionInputs value']
    rcases List.mem_cons.mp h with rfl | hother
    · exact .inl ((mem_mentionInputs value _).mpr (.inr hname))
    · cases List.mem_singleton.mp hother
      exact .inr hname
  | _ => cases h

theorem foldl_branches (branches : List (Leaf × Tree)) (names : List String) :
    branches.foldl (fun names branch => mention names branch.1.targetName) names =
      (branches.map fun branch => branch.1.targetName).foldl mention names := by
  rw [List.foldl_map]

theorem mem_outputs {tree : Tree} :
    name ∈ tree.outputs ↔ ∃ branch ∈ tree.branches, branch.1.targetName = name := by
  rw [outputs, foldl_branches, mem_foldl_mention]
  simp

theorem nodup_outputs (tree : Tree) : tree.outputs.Nodup := by
  have hfold (names more : List String) (h : names.Nodup) : (more.foldl mention names).Nodup := by
    induction more generalizing names with
    | nil => exact h
    | cons name more ih => exact ih _ (nodup_mention h name)
  rw [outputs, foldl_branches]
  exact hfold [] _ List.nodup_nil

end Tree

end FieldScript
