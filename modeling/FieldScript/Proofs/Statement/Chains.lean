import FieldScript.Host.Memory
import FieldScript.Proofs.Evaluate.Missing
import FieldScript.Proofs.Evaluate.Truth
import FieldScript.Proofs.Parse.Expressions
import FieldScript.Proofs.Statement.Evaluation

/-! What a chain means, from its text to its values. Operators apply in the order in which they are
written, so the value at a point is a fold over the operands there: no operator binds closer than
another, and neither `and` nor `or` does. -/
namespace FieldScript

def ArithOp.machine : ArithOp → Binary64 → Binary64 → Binary64
  | .add => (· + ·)
  | .sub => (· - ·)
  | .mul => (· * ·)
  | .div => (· / ·)

/-- Missing where an operand is missing, a divisor is zero or the result is not finite. -/
def ArithOp.combine (op : ArithOp) : Option Binary64 → Option Binary64 → Option Binary64
  | some a, some b =>
    if op = .div ∧ b.same 0 then none
    else if (op.machine a b).isFinite then some (op.machine a b) else none
  | _, _ => none

def foldArith (read : Leaf → Option Binary64) (first : Leaf) (steps : List (ArithOp × Leaf)) :
    Option Binary64 :=
  steps.foldl (fun acc step => step.1.combine acc (read step.2)) (read first)

theorem ArithOp.combine_some (op : ArithOp) (a b : Binary64) :
    op.combine (some a) (some b) = op.apply a b := by
  cases op with
  | div =>
    unfold combine apply
    cases hzero : b.same 0 <;> simp <;> rfl
  | _ => rfl

theorem ArithOp.combine_none (op : ArithOp) (b : Option Binary64) : op.combine none b = none := by
  cases b <;> rfl

section Folds

variable {read : Leaf → Option Binary64} {steps : List (ArithOp × Leaf)}

theorem foldl_combine_none :
    steps.foldl (fun acc step => step.1.combine acc (read step.2)) none = none := by
  induction steps with
  | nil => rfl
  | cons step steps ih => rw [List.foldl_cons, ArithOp.combine_none, ih]

theorem valueFrom_eq_foldl (acc : Binary64) : ArithChain.valueFrom read acc steps =
    steps.foldl (fun acc step => step.1.combine acc (read step.2)) (some acc) := by
  induction steps generalizing acc with
  | nil => rfl
  | cons step steps ih =>
    obtain ⟨op, leaf⟩ := step
    rw [ArithChain.valueFrom, List.foldl_cons]
    cases hread : read leaf with
    | none => exact foldl_combine_none.symm
    | some b =>
      simp only [ArithOp.combine_some, Option.bind_eq_bind, Option.bind_some]
      cases happly : op.apply acc b with
      | none => exact foldl_combine_none.symm
      | some next => exact ih next

theorem ArithChain.value_eq_foldArith (first : Leaf) (steps : List (ArithOp × Leaf)) :
    value read ⟨first, steps⟩ = foldArith read first steps := by
  unfold value foldArith
  cases read first with
  | none => exact foldl_combine_none.symm
  | some acc => exact valueFrom_eq_foldl acc

end Folds

namespace Statement

variable {σ : Type} [Host σ] {scope : σ} {maxDepth : Nat}

def operandAt (scope : σ) (point : Nat) : Leaf → Option Binary64
  | .variable name => (Host.named? scope name).bind fun field => field.read point
  | .number _ value => some value
  | .missing => none

/-- A name that a field has, a finite number with its text, or the word `missing`. -/
def IsOperand (scope : σ) (operand : Leaf) : Prop :=
  operand.WellFormed ∧ ∀ name, operand = .variable name → (Host.fieldId? scope name).isSome = true

theorem readLeaf_eq_operandAt (point : Nat) :
    (pointEvaluator scope maxDepth).readLeaf point = operandAt scope point := by
  funext operand
  cases operand with
  | «variable» name =>
    unfold operandAt
    rw [← (Host.agrees_empty scope).lookup_eq]
    rfl
  | _ => rfl

theorem evaluateAll_eq_map {tree : Tree} {value : Nat → Option Binary64}
    (checked : tree.checkPointwise = .ok ())
    (fields : ∀ operand ∈ tree.leaves, IsOperand scope operand)
    (values : ∀ point, (pointEvaluator scope maxDepth).valueAt tree point = .ok (value point)) :
    evaluateAll scope maxDepth tree = .ok ((List.range (Host.pointCount scope)).map value) :=
  evaluateAll_eq_ok.mpr ⟨checked,
    fun name hname => (fields _ (Tree.mem_inputs_iff.mp hname)).2 name rfl,
    Outcome.mapM_eq_ok_map values _⟩

theorem valueAt_arith {ev : Evaluator} (h : 1 ≤ ev.maxDepth) (chain : ArithChain) (point : Nat) :
    ev.valueAt (.arith chain) point = .ok (chain.value (ev.readLeaf point)) := by
  unfold Evaluator.valueAt Evaluator.valueFrom
  rw [if_neg (by omega)]

theorem valueAt_tests {ev : Evaluator} (h : 1 ≤ ev.maxDepth) (chain : TestChain) (point : Nat) :
    ev.valueAt (.tests chain) point =
      .ok (some (if chain.holds (ev.readLeaf point) then 1 else 0)) := by
  unfold Evaluator.valueAt Evaluator.valueFrom
  rw [if_neg (by omega)]

theorem evaluateAll_arith (levels : 1 ≤ maxDepth) {first : Leaf} {steps : List (ArithOp × Leaf)}
    (hoperands : ∀ operand ∈ first :: steps.map (·.2), IsOperand scope operand) :
    evaluateAll scope maxDepth (.arith ⟨first, steps⟩) =
      .ok ((List.range (Host.pointCount scope)).map fun point =>
        foldArith (operandAt scope point) first steps) := by
  refine evaluateAll_eq_map (by rw [Tree.checkPointwise]) ?_ fun point => ?_
  · intro operand hmem
    rw [Tree.leaves] at hmem
    exact hoperands operand hmem
  · rw [valueAt_arith levels, readLeaf_eq_operandAt, ArithChain.value_eq_foldArith]

theorem evaluateAll_tests (levels : 1 ≤ maxDepth) {chain : TestChain}
    (hoperands : ∀ test ∈ chain.tests, IsOperand scope test.left ∧ IsOperand scope test.right) :
    evaluateAll scope maxDepth (.tests chain) =
      .ok ((List.range (Host.pointCount scope)).map fun point =>
        some (if TestsTrue (operandAt scope point) chain.first chain.rest then 1 else 0)) := by
  refine evaluateAll_eq_map (by rw [Tree.checkPointwise]) ?_ fun point => ?_
  · intro operand hmem
    rw [Tree.leaves, TestChain.operands, List.mem_flatMap] at hmem
    obtain ⟨test, htest, hside⟩ := hmem
    obtain ⟨hleft, hright⟩ := hoperands test htest
    simp only [List.mem_cons, List.not_mem_nil, or_false] at hside
    rcases hside with rfl | rfl
    · exact hleft
    · exact hright
  · rw [valueAt_tests levels, readLeaf_eq_operandAt]
    simp only [TestChain.holds_iff]

/-- An arithmetic chain, written with single spaces, is at every point the fold of its operands from
the left; a chain of tests, its operators spelled in any way, is 1 or 0 by the fold of its tests. -/
theorem chains_left_to_right (scope : σ) (maxDepth : Nat) (levels : 1 ≤ maxDepth) :
    (∀ (first : Leaf) (steps : List (ArithOp × Leaf)), steps ≠ [] →
      (∀ operand ∈ first :: steps.map (·.2), IsOperand scope operand) →
      ∃ tree, Parse.expression
          (spaced first.text (steps.map fun step => (step.1.symbol, step.2.text))) = .ok tree ∧
        evaluateAll scope maxDepth tree = .ok ((List.range (Host.pointCount scope)).map
          fun point => foldArith (operandAt scope point) first steps)) ∧
    (∀ (first : Test) (steps : List (BoolOp × String × Test)),
      (∀ step ∈ steps, step.1.IsSpelling step.2.1) →
      (∀ test ∈ first :: steps.map (·.2.2), IsOperand scope test.left ∧ IsOperand scope test.right) →
      ∃ tree, Parse.expression
          (spaced first.text (steps.map fun step => (step.2.1, step.2.2.text))) = .ok tree ∧
        evaluateAll scope maxDepth tree = .ok ((List.range (Host.pointCount scope)).map
          fun point => some (if TestsTrue (operandAt scope point) first
            (steps.map fun step => (step.1, step.2.2)) then 1 else 0))) := by
  constructor
  · intro first steps hne hoperands
    obtain ⟨hfirst, hothers⟩ := List.forall_mem_cons.mp hoperands
    have hwell : ArithChain.WellFormed ⟨first, steps⟩ :=
      ⟨hfirst.1, hne, fun step hstep => (hothers _ (List.mem_map_of_mem hstep)).1⟩
    have htext : spaced first.text (steps.map fun step => (step.1.symbol, step.2.text)) =
        Tree.text (.arith ⟨first, steps⟩) := by
      unfold spaced
      rw [List.foldl_map]
      rfl
    rw [htext]
    exact ⟨_, Parse.expression_arith hwell, evaluateAll_arith levels hoperands⟩
  · intro first steps hspelled hoperands
    obtain ⟨hfirst, hothers⟩ := List.forall_mem_cons.mp hoperands
    have hsteps : ∀ step ∈ steps, step.1.IsSpelling step.2.1 ∧ step.2.2.WellFormed := by
      intro step hstep
      have htest := hothers _ (List.mem_map_of_mem hstep)
      exact ⟨hspelled step hstep, htest.1.1, htest.2.1⟩
    refine ⟨_, Parse.expression_spelled ⟨hfirst.1.1, hfirst.2.1⟩ hsteps, ?_⟩
    refine evaluateAll_tests levels (List.forall_mem_cons.mpr ⟨hfirst, ?_⟩)
    intro test htest
    simp only [Grammar.meant, List.map_map] at htest
    exact hothers test htest

def onePoint : MemoryScope where
  store := ⟨#[⟨"A", #[1], defaultSentinel⟩, ⟨"B", #[2], defaultSentinel⟩], .empty .owning⟩
  registry := .empty

/-- The quotient is missing before the sum is formed, and the sum is formed before the product. The
first `And` takes in both tests in front of it, and so does the second. -/
theorem onePoint_chains :
    (∃ tree, Parse.expression "A / 0 + B" = .ok tree ∧
      evaluateAll onePoint 1 tree = .ok [none]) ∧
    (∃ tree, Parse.expression "A + B * B" = .ok tree ∧
      evaluateAll onePoint 1 tree = .ok [some ⟨0x4018000000000000⟩]) ∧
    (∃ tree, Parse.expression "A < B OR A < B And B < missing" = .ok tree ∧
      evaluateAll onePoint 1 tree = .ok [some 0]) ∧
    ∃ tree, Parse.expression "B < A || A < B aND missing != B" = .ok tree ∧
      evaluateAll onePoint 1 tree = .ok [some 1] := by
  have hnames : ∀ name ∈ ["A", "B"], IsOperand onePoint (.variable name) := by
    intro name hname
    have hfield : (Host.fieldId? onePoint name).isSome = true := by
      simp only [List.mem_cons, List.not_mem_nil, or_false] at hname
      rcases hname with rfl | rfl <;> decide +kernel
    have hword : Source.IsName name := by
      simp only [List.mem_cons, List.not_mem_nil, or_false] at hname
      rcases hname with rfl | rfl <;> rfl
    exact ⟨hword, by rintro _ ⟨⟩; exact hfield⟩
  have hA := hnames "A" (by decide)
  have hB := hnames "B" (by decide)
  have hzero : IsOperand onePoint (.number "0" ⟨0⟩) := ⟨⟨rfl, rfl, rfl⟩, nofun⟩
  have hmissing : IsOperand onePoint .missing := ⟨trivial, nofun⟩
  obtain ⟨harith, htests⟩ := chains_left_to_right onePoint 1 (Nat.le_refl 1)
  refine ⟨?_, ?_, ?_, ?_⟩
  · have hvalues : (List.range (Host.pointCount onePoint)).map (fun point =>
        foldArith (operandAt onePoint point) (.variable "A")
          [(.div, .number "0" ⟨0⟩), (.add, .variable "B")]) = [none] := by
      decide +kernel
    rw [← hvalues]
    exact harith (.variable "A") [(.div, .number "0" ⟨0⟩), (.add, .variable "B")] (by decide)
      (by simp [hA, hB, hzero])
  · have hvalues : (List.range (Host.pointCount onePoint)).map (fun point =>
        foldArith (operandAt onePoint point) (.variable "A")
          [(.add, .variable "B"), (.mul, .variable "B")]) = [some ⟨0x4018000000000000⟩] := by
      decide +kernel
    rw [← hvalues]
    exact harith (.variable "A") [(.add, .variable "B"), (.mul, .variable "B")] (by decide)
      (by simp [hA, hB])
  · have hvalues : (List.range (Host.pointCount onePoint)).map (fun point =>
        some (if TestsTrue (operandAt onePoint point) ⟨.variable "A", .lt, .variable "B"⟩
          [(.or, ⟨.variable "A", .lt, .variable "B"⟩), (.and, ⟨.variable "B", .lt, .missing⟩)]
            then (1 : Binary64) else 0)) = [some 0] := by
      decide +kernel
    rw [← hvalues]
    exact htests ⟨.variable "A", .lt, .variable "B"⟩
      [(.or, "OR", ⟨.variable "A", .lt, .variable "B"⟩),
        (.and, "And", ⟨.variable "B", .lt, .missing⟩)]
      (by simp [BoolOp.IsSpelling, BoolOp.word]) (by simp [hA, hB, hmissing])
  · have hvalues : (List.range (Host.pointCount onePoint)).map (fun point =>
        some (if TestsTrue (operandAt onePoint point) ⟨.variable "B", .lt, .variable "A"⟩
          [(.or, ⟨.variable "A", .lt, .variable "B"⟩), (.and, ⟨.missing, .ne, .variable "B"⟩)]
            then (1 : Binary64) else 0)) = [some 1] := by
      decide +kernel
    rw [← hvalues]
    exact htests ⟨.variable "B", .lt, .variable "A"⟩
      [(.or, "||", ⟨.variable "A", .lt, .variable "B"⟩),
        (.and, "aND", ⟨.missing, .ne, .variable "B"⟩)]
      (by simp [BoolOp.IsSpelling, BoolOp.word, BoolOp.symbol]) (by simp [hA, hB, hmissing])

end Statement

end FieldScript
