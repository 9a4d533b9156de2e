import FieldScript.Operators

/-! When a test is true, and a chain of tests. Nothing here is computed: a test is true by one of the
rules below, and the operators between tests are conjunction and disjunction. The evaluator agrees,
so that the truth of a chain can be decided by it. -/
namespace FieldScript

variable {read : Leaf → Option Binary64}

def Comparison.Relates : Comparison → Binary64 → Binary64 → Prop
  | .lt, a, b => a < b
  | .le, a, b => a ≤ b
  | .gt, a, b => b < a
  | .ge, a, b => b ≤ a
  | .eq, a, b => a.isNaN = false ∧ b.isNaN = false ∧ a.rank = b.rank
  | .ne, a, b => ¬ (a.isNaN = false ∧ b.isNaN = false ∧ a.rank = b.rank)

/-- The ways in which a test is true, by what its two sides read as. -/
inductive Test.IsTrue (read : Leaf → Option Binary64) : Test → Prop where
  | related {left right : Leaf} {comparison : Comparison} {a b : Binary64}
      (named : left ≠ .missing ∧ right ≠ .missing) (hleft : read left = some a)
      (hright : read right = some b) (relates : comparison.Relates a b) :
      IsTrue read ⟨left, comparison, right⟩
  | isMissing {operand : Leaf} (absent : read operand = none) : IsTrue read ⟨operand, .eq, .missing⟩
  | isPresent {operand : Leaf} {a : Binary64} (present : read operand = some a) :
      IsTrue read ⟨operand, .ne, .missing⟩
  | missingIs {operand : Leaf} (absent : read operand = none) : IsTrue read ⟨.missing, .eq, operand⟩
  | missingIsNot {operand : Leaf} {a : Binary64} (present : read operand = some a) :
      IsTrue read ⟨.missing, .ne, operand⟩

def BoolOp.connective : BoolOp → Prop → Prop → Prop
  | .and => And
  | .or => Or

def TestsTrue (read : Leaf → Option Binary64) (first : Test) (steps : List (BoolOp × Test)) : Prop :=
  steps.foldl (fun truth step => step.1.connective truth (step.2.IsTrue read)) (first.IsTrue read)

theorem Binary64.same_iff {a b : Binary64} :
    a.same b = true ↔ a.isNaN = false ∧ b.isNaN = false ∧ a.rank = b.rank := by
  rw [same, decide_eq_true_eq]
  constructor
  · rintro ⟨⟨ha, hb, hle⟩, -, -, hge⟩
    exact ⟨ha, hb, Int.le_antisymm hle hge⟩
  · rintro ⟨ha, hb, hrank⟩
    exact ⟨⟨ha, hb, Int.le_of_eq hrank⟩, hb, ha, Int.le_of_eq hrank.symm⟩

theorem Comparison.holds_iff (comparison : Comparison) (a b : Binary64) :
    comparison.holds a b = true ↔ comparison.Relates a b := by
  cases comparison with
  | eq => exact Binary64.same_iff
  | ne => rw [holds, Bool.not_eq_true', ← Bool.not_eq_true, Binary64.same_iff, Relates]
  | _ => exact decide_eq_true_iff

theorem Leaf.isMissing_iff {leaf : Leaf} : leaf.isMissing = true ↔ leaf = .missing := by
  cases leaf <;> simp [isMissing]

theorem Test.holds_related {left right : Leaf} (hleft : left ≠ .missing) (hright : right ≠ .missing)
    (comparison : Comparison) : holds read ⟨left, comparison, right⟩ = true ↔
      ∃ a b, read left = some a ∧ read right = some b ∧ comparison.Relates a b := by
  have hwords : (left.isMissing || right.isMissing) = false := by
    simp [Leaf.isMissing_iff, ← Bool.not_eq_true, hleft, hright]
  simp only [holds, hwords]
  cases hl : read left <;> cases hr : read right <;> simp [Comparison.holds_iff]

theorem Test.holds_missing_right (left : Leaf) (comparison : Comparison) :
    holds read ⟨left, comparison, .missing⟩ = true ↔
      comparison = .eq ∧ read left = none ∨ comparison = .ne ∧ ∃ a, read left = some a := by
  cases comparison <;> simp [holds, Leaf.isMissing, Option.isSome_iff_exists]

theorem Test.holds_missing_left (right : Leaf) (comparison : Comparison) :
    holds read ⟨.missing, comparison, right⟩ = true ↔
      comparison = .eq ∧ read right = none ∨ comparison = .ne ∧ ∃ a, read right = some a := by
  cases right with
  | missing => exact holds_missing_right .missing comparison
  | _ => cases comparison <;> simp [holds, Leaf.isMissing, Option.isSome_iff_exists]

theorem Test.holds_iff_isTrue (test : Test) : test.holds read = true ↔ test.IsTrue read := by
  constructor
  · obtain ⟨left, comparison, right⟩ := test
    intro h
    by_cases hright : right = .missing
    · subst hright
      rcases (holds_missing_right left comparison).mp h with ⟨rfl, habsent⟩ | ⟨rfl, _, hpresent⟩
      · exact .isMissing habsent
      · exact .isPresent hpresent
    · by_cases hleft : left = .missing
      · subst hleft
        rcases (holds_missing_left right comparison).mp h with ⟨rfl, habsent⟩ | ⟨rfl, _, hpresent⟩
        · exact .missingIs habsent
        · exact .missingIsNot hpresent
      · obtain ⟨a, b, ha, hb, hrelates⟩ := (holds_related hleft hright comparison).mp h
        exact .related ⟨hleft, hright⟩ ha hb hrelates
  · rintro (⟨⟨hleft, hright⟩, ha, hb, hrelates⟩ | habsent | hpresent | habsent | hpresent)
    · exact (holds_related hleft hright _).mpr ⟨_, _, ha, hb, hrelates⟩
    · exact (holds_missing_right _ _).mpr (.inl ⟨rfl, habsent⟩)
    · exact (holds_missing_right _ _).mpr (.inr ⟨rfl, _, hpresent⟩)
    · exact (holds_missing_left _ _).mpr (.inl ⟨rfl, habsent⟩)
    · exact (holds_missing_left _ _).mpr (.inr ⟨rfl, _, hpresent⟩)

theorem BoolOp.apply_iff (op : BoolOp) {a b : Bool} {p q : Prop} (ha : a = true ↔ p)
    (hb : b = true ↔ q) : op.apply a b = true ↔ op.connective p q := by
  cases op with
  | and => rw [apply, Bool.and_eq_true, ha, hb]; rfl
  | or => rw [apply, Bool.or_eq_true, ha, hb]; rfl

theorem foldl_apply_iff (steps : List (BoolOp × Test)) {acc : Bool} {truth : Prop}
    (hacc : acc = true ↔ truth) :
    steps.foldl (fun acc step => step.1.apply acc (step.2.holds read)) acc = true ↔
      steps.foldl (fun truth step => step.1.connective truth (step.2.IsTrue read)) truth := by
  induction steps generalizing acc truth with
  | nil => exact hacc
  | cons step steps ih => exact ih (step.1.apply_iff hacc step.2.holds_iff_isTrue)

theorem TestChain.holds_iff (chain : TestChain) :
    chain.holds read = true ↔ TestsTrue read chain.first chain.rest :=
  foldl_apply_iff chain.rest chain.first.holds_iff_isTrue

instance (first : Test) (steps : List (BoolOp × Test)) : Decidable (TestsTrue read first steps) :=
  decidable_of_iff _ (TestChain.holds_iff ⟨first, steps⟩)

end FieldScript
