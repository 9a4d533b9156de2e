import FieldScript.Proofs.Evaluate.Failing
import FieldScript.Proofs.Tree.Calls

/-! The limit on levels is exact. A value no higher than the limit never runs out of levels, a value
that is present has opened every level of its tree, and where levels run out the limit has just been
reached. -/
namespace FieldScript

namespace Builtin

theorem pointwise_error {op : Builtin} {values : List Binary64} {e : EvalError}
    (h : op.pointwise values = .error e) : e = .outOfBounds := by
  unfold pointwise at h
  -- Only `fuzzy` looks at its arguments further; all other rows are a value or the fault itself.
  split at h <;> grind

end Builtin

namespace Evaluator

variable {ev : Evaluator} {index depth : Nat} {tree : Tree} {e : EvalError}

theorem Failure.overflow (failure : ev.Failure index depth tree e)
    (exceeded : e.isResourceExceeded = true) (room : depth ≤ ev.maxDepth) :
    e = .stackOverflow ev.maxDepth ev.maxDepth ∧ ev.maxDepth < depth + tree.height := by
  induction failure with
  | @spent depth tree spent =>
    have hpos := tree.height_pos
    have hdepth : depth = ev.maxDepth := Nat.le_antisymm room spent
    exact ⟨by rw [hdepth], by omega⟩
  | user => cases exceeded
  | statement => cases exceeded
  | window isWindow failed =>
    rw [(windowAt_refusal failed).1] at exceeded
    cases exceeded
  | operator pointwise count failed =>
    rw [Builtin.pointwise_error failed] at exceeded
    cases exceeded
  | argument room' pointwise mem failure ih =>
    have hheight := Tree.height_le_argsHeight mem
    obtain ⟨heq, hdeep⟩ := ih exceeded room'
    rw [Tree.height, if_neg (by simp [pointwise])]
    exact ⟨heq, by omega⟩

/-- By induction on the tree: a pointwise operator that has a value has one for each argument. -/
theorem height_le_of_present {value : Binary64}
    (h : ev.valueFrom index depth tree = .ok (some value)) : depth + tree.height ≤ ev.maxDepth := by
  induction tree using Tree.induct generalizing depth value with
  | call callee args ih =>
    have hdepth := room_of_valueFrom h
    cases callee with
    | user keyword =>
      rw [Tree.height]
      · omega
      · rintro op args' ⟨⟩
    | builtin op =>
      rw [valueFrom_builtin hdepth] at h
      rw [Tree.height]
      by_cases hop : op.isWindow = true
      · rw [if_pos hop]
        omega
      · rw [if_neg hop] at h ⊢
        split at h
        · cases h
        · cases h
        · rename_i values hvalues
          have hargs : Tree.argsHeight args ≤ ev.maxDepth - (depth + 1) := by
            refine Tree.argsHeight_le fun arg harg => ?_
            obtain ⟨present, hpresent⟩ := (argsFrom_eq_some hvalues).2 arg harg
            have hroom := ih arg harg hpresent
            omega
          omega
  | _ =>
    have hdepth := room_of_valueFrom h
    rw [Tree.height]
    · omega
    · rintro op args ⟨⟩

end Evaluator

namespace Statement

/-- A value that is no higher than the limit never runs out of levels, whatever data is missing and
whether the handles are right or wrong. Only a value that is no higher is ever present, and running
out of levels is reported at the limit itself. -/
theorem valueAt_levels {σ : Type} [Host σ] (scope : σ) (handles : Handles) (maxDepth : Nat)
    (tree : Tree) (index : Nat) :
    let result := (evaluator scope handles maxDepth).valueAt tree index
    (tree.height ≤ maxDepth → ∀ depth limit, result ≠ .error (.stackOverflow depth limit)) ∧
    (∀ value, result = .ok (some value) → tree.height ≤ maxDepth) ∧
    ∀ depth limit, result = .error (.stackOverflow depth limit) →
      depth = maxDepth ∧ limit = maxDepth := by
  intro result
  have overflow {depth limit : Nat} (h : result = .error (.stackOverflow depth limit)) :
      (EvalError.stackOverflow depth limit = .stackOverflow maxDepth maxDepth) ∧
        maxDepth < 0 + tree.height :=
    (Evaluator.failure_of_valueFrom h).overflow rfl (Nat.zero_le maxDepth)
  refine ⟨fun fits depth limit h => ?_, fun value h => ?_, fun depth limit h => ?_⟩
  · have hdeep := (overflow h).2
    omega
  · have hroom : 0 + tree.height ≤ maxDepth := Evaluator.height_le_of_present h
    omega
  · exact EvalError.stackOverflow.inj (overflow h).1

def peakOfAbs : Tree :=
  .call (.builtin .max) [.leaf (.variable "A"),
    .call (.builtin .abs) [.call (.builtin .abs) [.leaf (.variable "A")]]]

theorem peakOfAbs_levels :
    (evaluator gapped .empty 3).valueAt peakOfAbs 0 = .error (.stackOverflow 3 3) ∧
      (evaluator gapped .empty 3).valueAt peakOfAbs 1 = .ok none ∧
      (evaluator gapped .empty 4).valueAt peakOfAbs 0 = .ok (some 1) ∧
      ¬peakOfAbs.height ≤ 3 ∧ peakOfAbs.height ≤ 4 := by
  have spent : (evaluator gapped .empty 3).valueAt peakOfAbs 0 = .error (.stackOverflow 3 3) := by
    with_unfolding_all rfl
  have present : (evaluator gapped .empty 4).valueAt peakOfAbs 0 = .ok (some 1) := by
    with_unfolding_all rfl
  refine ⟨spent, by with_unfolding_all rfl, present, fun fits => ?_, ?_⟩
  · exact (valueAt_levels gapped .empty 3 peakOfAbs 0).1 fits 3 3 spent
  · exact (valueAt_levels gapped .empty 4 peakOfAbs 0).2.1 1 present

end Statement

end FieldScript
