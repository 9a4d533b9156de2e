import FieldScript.Proofs.Scope.Frame

/-! Scopes in memory that cannot be told apart by their fields of certain names. A write to such a
name succeeds in both or fails in both for the same reason, and they still agree afterwards,
whatever their other fields are. -/
namespace FieldScript

namespace MemoryScope

open Statement

/-- The same fields under these names, and the same model of a new field. -/
structure AgreeOn (names : List String) (a b : MemoryScope) : Prop where
  left : a.WellFormed
  right : b.WellFormed
  field : ∀ name ∈ names, a.store.field? name = b.store.field? name
  model : a.model? = b.model?

namespace AgreeOn

variable {names : List String} {a b : MemoryScope}

theorem refl {scope : MemoryScope} (wf : scope.WellFormed) (names : List String) :
    AgreeOn names scope scope :=
  ⟨wf, wf, fun _ _ => rfl, rfl⟩

theorem target?_eq (agree : AgreeOn names a b) {name : String} (h : name ∈ names) :
    a.target? name = b.target? name := by
  simp only [target?, agree.field name h, agree.model]

theorem pointCount_eq (agree : AgreeOn names a b) : a.pointCount = b.pointCount := by
  have hcount (scope : MemoryScope) :
      scope.pointCount = ((scope.model? "").map Field.size).getD 0 := by
    unfold pointCount model?
    cases scope.fields[0]? <;> simp [Field.absent, Field.size]
  rw [hcount, hcount, agree.model]

theorem checkOutput_eq (agree : AgreeOn names a b) : checkOutput a = checkOutput b := by
  -- A scope without a model has no fields at all.
  have hcheck (scope : MemoryScope) (name : String) : checkOutput scope name =
      if (scope.model? name).isSome then .ok () else .error (.outputUnavailable name) := by
    have hmodel : (Host.example? scope name).isSome = (scope.model? name).isSome := rfl
    unfold checkOutput
    rw [hmodel]
    cases hsome : (scope.model? name).isSome with
    | true => simp
    | false =>
      have hnone : (Host.fieldId? scope name).isSome = false := by
        refine Bool.eq_false_iff.mpr fun hfield => ?_
        have hpos : 0 < scope.fields.size := fields_nonempty_of_fieldId? hfield
        rw [model?_isSome hpos name] at hsome
        cases hsome
      rw [hnone]
      rfl
  funext name
  rw [hcheck, hcheck, agree.model]

theorem replace (agree : AgreeOn names a b) {name : String} {old new : Field}
    (hold : a.target? name = some old) (hold' : b.target? name = some old)
    (shape : old.SameShape new) : AgreeOn names (a.replace name new) (b.replace name new) where
  left := agree.left.replace hold shape
  right := agree.right.replace hold' shape
  field other hother := by
    by_cases hname : other = name
    · subst hname
      rw [field?_replace agree.left hold shape, field?_replace agree.right hold' shape]
    · have houtside : other ∉ [name] := by simpa using hname
      have hleft := (frame_replace agree.left hold shape).field?_eq
        (agree.left.replace hold shape) houtside
      have hright := (frame_replace agree.right hold' shape).field?_eq
        (agree.right.replace hold' shape) houtside
      rw [hleft, hright, agree.field other hother]
  model := by
    rw [(frame_replace agree.left hold shape).model?_eq (fields_nonempty_of_target hold),
      (frame_replace agree.right hold' shape).model?_eq (fields_nonempty_of_target hold'),
      agree.model]

end AgreeOn

theorem respects_updateOutput {names : List String} {name : String} (h : name ∈ names)
    {step : Update Field Unit} (shape : step.KeepsShape) :
    (updateOutput name step).Respects (AgreeOn names) := by
  intro a b agree
  have htarget := agree.target?_eq h
  cases hold : b.target? name with
  | none =>
    rw [hold] at htarget
    simp only [Update.outcome, Update.after, updateOutput_of_none htarget, updateOutput_of_none hold]
    exact ⟨trivial, agree⟩
  | some old =>
    rw [hold] at htarget
    rw [outcome_updateOutput htarget, outcome_updateOutput hold, after_updateOutput htarget,
      after_updateOutput hold]
    exact ⟨rfl, agree.replace htarget hold (shape old)⟩

end MemoryScope

end FieldScript
