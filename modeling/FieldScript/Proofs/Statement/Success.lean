import FieldScript.Proofs.Evaluate.Failing
import FieldScript.Proofs.Statement.Assignment
import FieldScript.Proofs.Statement.Conditional

/-! When a statement succeeds. Once its values can be evaluated within the levels there are, all it
asks of a scope with a field is that the names it reads are fields; it then leaves its outputs as
fields too. -/
namespace FieldScript

/-- A statement of values that pass the pointwise check and fit into that many levels. -/
structure Tree.Ready (maxDepth : Nat) (statement : Tree) : Prop where
  isStatement : statement.isStatement = true
  checked : ∀ branch ∈ statement.branches, branch.2.checkPointwise = .ok ()
  levels : ∀ branch ∈ statement.branches, branch.2.height ≤ maxDepth

namespace Statement

open Outcome MemoryScope

variable {scope after : MemoryScope} {maxDepth : Nat}

theorem isSome_lookup (scope : MemoryScope) (maxDepth : Nat) (name : String) :
    ((pointEvaluator scope maxDepth).lookup name).isSome = (Host.fieldId? scope name).isSome := by
  rw [lookup_pointEvaluator]
  exact (scope.store.isSome_fieldId? name).symm

theorem exists_valueAt {value : Tree} (checked : value.checkPointwise = .ok ())
    (levels : value.height ≤ maxDepth)
    (found : ∀ name ∈ value.inputs, (Host.fieldId? scope name).isSome = true) (point : Nat) :
    ∃ result, (pointEvaluator scope maxDepth).valueAt value point = .ok result := by
  have room : 0 + value.height ≤ (pointEvaluator scope maxDepth).maxDepth := by
    rw [Nat.zero_add]
    exact levels
  refine Evaluator.exists_valueFrom checked (fun name hname => ?_) room
  exact (isSome_lookup scope maxDepth name).trans (found name hname)

theorem exists_evaluateAll_iff {value : Tree} (checked : value.checkPointwise = .ok ())
    (levels : value.height ≤ maxDepth) :
    (∃ values, evaluateAll scope maxDepth value = .ok values) ↔
      ∀ name ∈ value.inputs, (Host.fieldId? scope name).isSome = true := by
  constructor
  · rintro ⟨values, hvalues⟩
    exact (evaluateAll_eq_ok.mp hvalues).2.1
  · intro found
    have hvalues : ∃ values, (pointEvaluator scope maxDepth).valuesAt value
        (Host.pointCount scope) = .ok values :=
      exists_mapM fun point _ => exists_valueAt checked levels found point
    obtain ⟨values, hvalues⟩ := hvalues
    exact ⟨values, evaluateAll_eq_ok.mpr ⟨checked, found, hvalues⟩⟩

theorem userKeyword?_of_checked {value : Tree} (h : value.checkPointwise = .ok ()) :
    value.userKeyword? = none := by
  unfold Tree.userKeyword?
  split
  · exact absurd h Tree.checkPointwise_user
  · rfl

theorem exists_process_assign_iff (wf : scope.WellFormed) (nonempty : 0 < scope.fields.size)
    (target : Leaf) {value : Tree} (checked : value.checkPointwise = .ok ())
    (levels : value.height ≤ maxDepth) :
    (∃ produced after, process maxDepth (.assign target value) scope = .ok produced after) ↔
      ∀ name ∈ value.inputs, (Host.fieldId? scope name).isSome = true := by
  rw [← exists_evaluateAll_iff checked levels]
  have agrees := carriesOut_assign wf nonempty (Nat.le_trans value.height_pos levels)
    target.targetName (userKeyword?_of_checked checked)
  cases hvalues : evaluateAll scope maxDepth value with
  | error e =>
    rw [hvalues] at agrees
    have hplan : plan scope maxDepth (.assign target value) = .error e := agrees
    simp [process, hplan]
  | ok values =>
    rw [hvalues] at agrees
    obtain ⟨writes, after, hplan, hwrites, _⟩ := agrees
    exact ⟨fun _ => ⟨values, rfl⟩, fun _ => ⟨_, after, process_eq_ok.mpr ⟨_, hplan, hwrites, rfl⟩⟩⟩

theorem seedSize_eq (wf : scope.WellFormed) (target : String) :
    seedSize scope target = scope.pointCount := by
  unfold seedSize
  cases hnamed : Host.named? scope target with
  | none => rfl
  | some field => exact wf.size_named hnamed

theorem exists_choice (wf : scope.WellFormed) {test : TestChain} {first : Leaf × Tree}
    {other : Option (Leaf × Tree)} (ready : (Tree.conditional test first other).Ready maxDepth)
    (found : ∀ name ∈ (Tree.conditional test first other).inputs,
      (Host.fieldId? scope name).isSome = true) {point : Nat} (hpoint : point < scope.pointCount) :
    ∃ chosen, choice scope (pointEvaluator scope maxDepth) test (namedBranches first other) point =
      .ok chosen := by
  unfold choice
  rw [selected_map]
  cases htaken : taken first other (test.holds ((pointEvaluator scope maxDepth).readLeaf point)) with
  | none => exact ⟨none, rfl⟩
  | some branch =>
    have hbranch : branch ∈ (Tree.conditional test first other).branches := by
      rw [branches_conditional]
      exact mem_of_taken htaken
    obtain ⟨value, hvalue⟩ := exists_valueAt (ready.checked branch hbranch)
      (ready.levels branch hbranch)
      (fun name hname => found name (Tree.mem_inputs_of_branch hbranch hname)) point
    simp only [Option.map_some, hvalue, bind, Except.bind, seedSize_eq wf, if_pos hpoint]
    exact ⟨_, rfl⟩

theorem exists_process_conditional_iff (wf : scope.WellFormed) (nonempty : 0 < scope.fields.size)
    (test : TestChain) (first : Leaf × Tree) (other : Option (Leaf × Tree))
    (ready : (Tree.conditional test first other).Ready maxDepth) :
    (∃ produced after,
        process maxDepth (.conditional test first other) scope = .ok produced after) ↔
      ∀ name ∈ (Tree.conditional test first other).inputs,
        (Host.fieldId? scope name).isSome = true := by
  simp only [process_eq_ok, plan_conditional]
  constructor
  · rintro ⟨_, _, planned, hplan, _⟩
    simp only [planConditional, bind_eq_ok] at hplan
    obtain ⟨_, _, handles, hresolve, _⟩ := hplan
    exact Host.exists_resolve_iff.mp ⟨handles, hresolve⟩
  · intro found
    obtain ⟨handles, hresolve⟩ := Host.exists_resolve_iff.mpr found
    have hchoices : ∃ choices, (List.range scope.pointCount).mapM
        (choice scope (pointEvaluator scope maxDepth) test (namedBranches first other)) =
          .ok choices :=
      exists_mapM fun point hpoint => exists_choice wf ready found (List.mem_range.mp hpoint)
    obtain ⟨choices, hchoices⟩ := hchoices
    have hplan : ∃ planned, planConditional scope maxDepth (.conditional test first other) test
        (namedBranches first other) = .ok planned := by
      refine ⟨_, bind_eq_ok.mpr ⟨(), forM_eq_ok ?_, bind_eq_ok.mpr ⟨handles, hresolve,
        bind_eq_ok.mpr ⟨choices, ?_, rfl⟩⟩⟩⟩
      · intro _ hmem
        obtain ⟨branch, hbranch, rfl⟩ := List.mem_map.mp hmem
        have hchecked := ready.checked branch (branches_conditional ▸ hbranch)
        exact bind_eq_ok.mpr ⟨(), hchecked, checkOutput_ok nonempty branch.1.targetName⟩
      · rw [evaluator_of_resolve hresolve]
        exact hchoices
    obtain ⟨planned, hplan⟩ := hplan
    obtain ⟨after, hwrites⟩ := forM_apply_fits wf (fits_planConditional wf hplan)
    exact ⟨_, after, planned, hplan, hwrites, rfl⟩

theorem exists_process_iff (wf : scope.WellFormed) (nonempty : 0 < scope.fields.size)
    {statement : Tree} (ready : statement.Ready maxDepth) :
    (∃ produced after, process maxDepth statement scope = .ok produced after) ↔
      ∀ name ∈ statement.inputs, (Host.fieldId? scope name).isSome = true := by
  cases statement with
  | assign target value =>
    exact exists_process_assign_iff wf nonempty target
      (ready.checked (target, value) List.mem_cons_self)
      (ready.levels (target, value) List.mem_cons_self)
  | guarded test target value =>
    exact exists_process_conditional_iff wf nonempty test (target, value) none ready
  | branched test target value target' value' =>
    exact exists_process_conditional_iff wf nonempty test (target, value)
      (some (target', value')) ready
  | _ => cases ready.isStatement

theorem fieldId?_after (wf : scope.WellFormed) {statement : Tree} (ready : statement.Ready maxDepth)
    {produced : Produced} (h : process maxDepth statement scope = .ok produced after)
    (name : String) : (Host.fieldId? after name).isSome = true ↔
      (Host.fieldId? scope name).isSome = true ∨ name ∈ statement.outputs := by
  have wf' := wellFormed_of_process wf h
  cases effect_of_process wf h with
  | fields frame stored =>
    constructor
    · intro hafter
      by_cases hname : name ∈ statement.outputs
      · exact .inr hname
      · have heq : Host.fieldId? after name = Host.fieldId? scope name := frame.fieldId?_eq wf' hname
        exact .inl (heq ▸ hafter)
    · rintro (hbefore | hname)
      · obtain ⟨id, hid⟩ := Option.isSome_iff_exists.mp hbefore
        exact Option.isSome_of_eq_some (frame.fieldId?_kept wf' hid)
      · exact stored name hname
  | data target keyword args data call =>
    subst call
    exact absurd (ready.checked _ List.mem_cons_self) Tree.checkPointwise_user

end Statement

end FieldScript
