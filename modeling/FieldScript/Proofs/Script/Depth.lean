import FieldScript.Proofs.Parse.Nesting
import FieldScript.Proofs.Script.Stopping
import FieldScript.Proofs.Statement.Failing

/-! Scripts that cannot run out of levels. An evaluation opens one level more than there are calls
around its innermost argument, and the calls of a parsed script are nested no deeper than its
parentheses outside of comments. -/
namespace FieldScript.Script

open Statement Source

variable {σ : Type} [Host σ] {options : RunOptions} {trees : List Tree}

theorem process_of_entry {scope : σ} {entry : Entry} {e : EvalError}
    (h : entry ∈ (runStatements options trees scope).1.entries) (failed : entry.outcome = .error e) :
    entry.statement ∈ trees ∧
      ∃ before after : σ, process options.maxDepth entry.statement before = .error e after := by
  obtain ⟨hmem, before, hentry⟩ := (runs_runStatements options trees scope).exists_entryOf h
  refine ⟨hmem, before, ?_⟩
  have houtcome : (process options.maxDepth entry.statement).outcome before = .error e :=
    (congrArg Entry.outcome hentry).symm.trans failed
  exact Update.outcome_eq_error.mp houtcome

theorem callsHost_of_overflow {scope after : σ} {maxDepth : Nat} {statement : Tree} {e : EvalError}
    (shallow : statement.callDepth < maxDepth)
    (failed : process maxDepth statement scope = .error e after)
    (exceeded : e.isResourceExceeded = true) : statement.CallsHost := by
  cases process_failure failed with
  | refused refusal =>
    rw [refusal.1] at exceeded
    cases exceeded
  | @tooDeep reached branch hbranch high =>
    have hheight := branch.2.height_le_callDepth
    have hdepth := Tree.callDepth_branch_le hbranch
    omega
  | outrun form outruns => cases exceeded
  | host call => exact call

theorem overflow_of_entry {scope : σ} {entry : Entry} {e : EvalError}
    (shallow : ∀ tree ∈ trees, tree.callDepth < options.maxDepth)
    (h : entry ∈ (runStatements options trees scope).1.entries) (failed : entry.outcome = .error e)
    (exceeded : e.isResourceExceeded = true) : entry.statement.CallsHost := by
  obtain ⟨hmem, before, after, hprocess⟩ := process_of_entry h failed
  exact callsHost_of_overflow (shallow _ hmem) hprocess exceeded

/-- The limit of a parse bounds the calls of the script exactly if it bounds the parentheses outside
of comments, as it does where no comment holds a closing one. A run with a higher limit then never
runs out of levels by itself. -/
theorem depth_of_parsed {source : String} {maxDepth : Nat}
    (parsed : Parse.script source maxDepth = .ok trees) (scope : σ) (options : RunOptions) :
    ((∀ tree ∈ trees, tree.callDepth ≤ maxDepth) ↔
      nesting (withoutComments source.toList) ≤ maxDepth) ∧
    (CommentsLack ')' source.toList → nesting (withoutComments source.toList) ≤ maxDepth) ∧
    (nesting (withoutComments source.toList) ≤ maxDepth → maxDepth < options.maxDepth →
      ∀ entry ∈ (runStatements options trees scope).1.entries,
        ∀ e, entry.outcome = .error e → e.isResourceExceeded = true →
          entry.statement.CallsHost) := by
  have hcalls := Parse.callDepth_le_iff parsed
  refine ⟨hcalls, fun hlack => ?_, fun hnesting hlimit entry hentry e => ?_⟩
  · exact Nat.le_trans (nesting_withoutComments_le hlack) (Parse.script_eq_ok.mp parsed).1
  · have shallow (tree : Tree) (htree : tree ∈ trees) : tree.callDepth < options.maxDepth :=
      Nat.lt_of_le_of_lt (hcalls.mpr hnesting tree htree) hlimit
    exact overflow_of_entry shallow hentry

def absTwice : Tree :=
  .assign (.variable "A") (.call (.builtin .abs) [.call (.builtin .abs) [.leaf (.variable "A")]])

/-- A limit of 2 keeps runs with 3 levels safe. A comment that closes the first call has a limit of 1
let in both calls, and they run out of 2 levels. -/
theorem absTwice_depth :
    (Parse.script "A = abs(abs(A)) # (" 2 = .ok [absTwice] ∧
      ∀ entry ∈ (runStatements ⟨3, false⟩ [absTwice] twoPoints).1.entries,
        ∀ e, entry.outcome = .error e → e.isResourceExceeded = true →
          entry.statement.CallsHost) ∧
    Parse.script "A = abs(# )\nabs(A))" 1 = .ok [absTwice] ∧
      (¬∀ tree ∈ [absTwice], tree.callDepth ≤ 1) ∧
      process 2 absTwice twoPoints = .error (.stackOverflow 2 2) twoPoints := by
  have open_parsed : Parse.script "A = abs(abs(A)) # (" 2 = .ok [absTwice] := by rfl
  have closed_parsed : Parse.script "A = abs(# )\nabs(A))" 1 = .ok [absTwice] := by rfl
  have safe := depth_of_parsed open_parsed twoPoints ⟨3, false⟩
  have hidden := (depth_of_parsed closed_parsed twoPoints ⟨2, false⟩).1
  refine ⟨⟨open_parsed, safe.2.2 (safe.2.1 (by decide +kernel)) (by decide)⟩, closed_parsed, ?_, ?_⟩
  · rw [hidden]
    decide +kernel
  · with_unfolding_all rfl

end FieldScript.Script
