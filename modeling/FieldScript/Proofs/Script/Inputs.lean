import FieldScript.Proofs.Script.Compiling
import FieldScript.Proofs.Statement.Success

/-! What a script asks of a scope. Each statement finds the names that the scope supplied and those
written before it, so a run succeeds exactly if the scope supplies what is read before it is
written. -/
namespace FieldScript

namespace Script

variable {written found : List String} {name : String}

theorem mem_inputsFrom_of_mem {statements : List Tree} (h : name ∈ found) :
    name ∈ inputsFrom written found statements := by
  induction statements generalizing written found with
  | nil => exact h
  | cons statement rest ih => exact ih (mem_foldl_mention.mpr (.inl h))

theorem mem_inputs_next {statement : Tree} :
    name ∈ (statement.inputs.filter fun name => !written.contains name).foldl mention found ↔
      name ∈ found ∨ name ∈ statement.inputs ∧ name ∉ written := by
  simp [mem_foldl_mention]

section Run

variable {σ : Type} [Host σ] {scope after : σ} {options : RunOptions} {statement : Tree}
  {rest : List Tree}

theorem isSuccess_cons_ok {produced : Produced}
    (h : Statement.process options.maxDepth statement scope = .ok produced after) :
    (runStatements options (statement :: rest) scope).1.isSuccess =
      (runStatements options rest after).1.isSuccess := by
  simp [runStatements, h, Report.isSuccess, Except.isOk, Except.toBool]

theorem isSuccess_cons_error {e : EvalError}
    (h : Statement.process options.maxDepth statement scope = .error e after) :
    (runStatements options (statement :: rest) scope).1.isSuccess = false := by
  simp only [runStatements, h]
  split <;> simp [Report.isSuccess, Except.isOk, Except.toBool]

end Run

open MemoryScope Statement

theorem runStatements_isSuccess_iff {options : RunOptions} {statements : List Tree}
    (ready : ∀ statement ∈ statements, statement.Ready options.maxDepth) {scope : MemoryScope}
    (wf : scope.WellFormed) (nonempty : 0 < scope.fields.size) {Supplied : String → Prop}
    (known : ∀ name, (Host.fieldId? scope name).isSome = true ↔ Supplied name ∨ name ∈ written)
    (supplied : ∀ name ∈ found, Supplied name) :
    (runStatements options statements scope).1.isSuccess = true ↔
      ∀ name ∈ inputsFrom written found statements, Supplied name := by
  induction statements generalizing scope written found with
  | nil => exact ⟨fun _ => supplied, fun _ => rfl⟩
  | cons statement rest ih =>
    obtain ⟨hready, hrest⟩ := List.forall_mem_cons.mp ready
    have step := exists_process_iff wf nonempty hready
    cases hprocess : process options.maxDepth statement scope with
    | ok produced after =>
      have hfound := step.mp ⟨produced, after, hprocess⟩
      have wf' := wellFormed_of_process wf hprocess
      have hnames := fieldId?_after wf hready hprocess
      rw [isSuccess_cons_ok hprocess]
      -- The outputs join the written names; inputs found now were supplied, or written before.
      refine ih hrest wf' ?_ (fun name => ?_) fun name hname => ?_
      · cases effect_of_process wf hprocess with
        | fields frame => exact Nat.lt_of_lt_of_le nonempty frame.size_le
        | data => exact nonempty
      · rw [hnames, known, mem_foldl_mention, or_assoc]
      · rcases mem_inputs_next.mp hname with hname | ⟨hread, hunwritten⟩
        · exact supplied name hname
        · exact ((known name).mp (hfound name hread)).resolve_right hunwritten
    | error e after =>
      rw [isSuccess_cons_error hprocess]
      refine ⟨fun h => Bool.noConfusion h, fun hall => ?_⟩
      -- All that this statement reads is supplied or written, so it cannot have failed.
      have hfound (name : String) (hread : name ∈ statement.inputs) :
          (Host.fieldId? scope name).isSome = true := by
        refine (known name).mpr ?_
        by_cases hwritten : name ∈ written
        · exact .inr hwritten
        · refine .inl (hall name ?_)
          rw [inputsFrom]
          exact mem_inputsFrom_of_mem (mem_inputs_next.mpr (.inr ⟨hread, hwritten⟩))
      obtain ⟨produced, after', hok⟩ := step.mpr hfound
      cases hprocess.symm.trans hok

theorem ready_of_compiled {engine : Engine} {parseMaxDepth : Nat} {source : String}
    {script : Script} (compiled : engine.compileWith parseMaxDepth source = .ok script)
    {maxDepth : Nat} {statement : Tree} (hstatement : statement ∈ script.statements)
    (noHost : statement.Every fun node => node.userKeyword? = none)
    (levels : ∀ branch ∈ statement.branches, branch.2.height ≤ maxDepth) :
    statement.Ready maxDepth := by
  have hparsed := (Engine.compileWith_eq_ok.mp compiled).1
  have hwf := Parse.script_wellFormed hparsed statement hstatement
  exact ⟨hwf.statement, fun branch hbranch =>
    (hwf.branch hbranch).checkPointwise (noHost.branch hbranch), levels⟩

/-- A compiled script without host functions succeeds on a scope with a field, within levels enough
for its values, exactly if each of its inputs is a field of the scope. -/
theorem runWith_isSuccess_iff {engine : Engine} {parseMaxDepth : Nat} {source : String}
    {script : Script} (compiled : engine.compileWith parseMaxDepth source = .ok script)
    (noHost : ∀ statement ∈ script.statements,
      statement.Every fun node => node.userKeyword? = none)
    {scope : MemoryScope} (reachable : scope.Reachable) (nonempty : 0 < scope.fields.size)
    {options : RunOptions} (levels : ∀ statement ∈ script.statements,
      ∀ branch ∈ statement.branches, branch.2.height ≤ options.maxDepth) :
    (script.runWith options scope).1.isSuccess = true ↔
      ∀ name ∈ script.inputs, (Host.fieldId? scope name).isSome = true := by
  refine runStatements_isSuccess_iff (fun statement hstatement => ready_of_compiled compiled
    hstatement (noHost statement hstatement) (levels statement hstatement)) reachable.wellFormed
    nonempty (fun name => ?_) fun name hname => ?_
  · simp
  · cases hname

/-- Only `A` is read before it is written; `C` is a field from the branch on, taken or not. -/
def chained : Script where
  statements := [.assign (.variable "B") (.leaf (.variable "A")),
    .guarded ⟨⟨.variable "B", .gt, .variable "A"⟩, []⟩ (.variable "C") (.leaf (.variable "B")),
    .assign (.variable "D") (.call (.builtin .abs) [.leaf (.variable "C")])]
  options := .default

theorem chained_isSuccess :
    (Engine.default.compileWith 500 "B = A; if (B > A) then C = B; D = abs(C)" = .ok chained ∧
      (∀ statement ∈ chained.statements, statement.Every fun node => node.userKeyword? = none) ∧
      (∀ statement ∈ chained.statements, ∀ branch ∈ statement.branches,
        branch.2.height ≤ RunOptions.default.maxDepth) ∧
      twoPoints.Reachable ∧ 0 < twoPoints.fields.size) ∧
      chained.inputs = ["A"] ∧
      (chained.runWith .default twoPoints).1.isSuccess = true := by
  have compiled : Engine.default.compileWith 500 "B = A; if (B > A) then C = B; D = abs(C)" =
      .ok chained := by
    with_unfolding_all rfl
  have nonempty : 0 < twoPoints.fields.size := by decide
  have inputs : chained.inputs = ["A"] := by decide
  have levels : ∀ statement ∈ chained.statements, ∀ branch ∈ statement.branches,
      branch.2.height ≤ RunOptions.default.maxDepth := by
    decide
  have noHost : ∀ statement ∈ chained.statements,
      statement.Every fun node => node.userKeyword? = none := by
    simp [chained, Tree.Every, Tree.EveryArg, Tree.userKeyword?]
  refine ⟨⟨compiled, noHost, levels, reachable_twoPoints, nonempty⟩, inputs,
    (runWith_isSuccess_iff compiled noHost reachable_twoPoints nonempty levels).mpr ?_⟩
  intro name hname
  rw [inputs] at hname
  cases List.mem_singleton.mp hname
  with_unfolding_all rfl

end Script

end FieldScript
