import FieldScript.Proofs.Field.Writing
import FieldScript.Proofs.Scope.Invariant
import FieldScript.Proofs.Update
import FieldScript.Statement

/-! Writes to a scope in memory. Every write to a field is one equation: the step runs on the field
the write starts from, and what it leaves takes that field's place. A write of as many values as
there are points cannot fail once the scope has a field. -/
namespace FieldScript

namespace Write

def target : Write → String
  | .fill target _ | .clear target | .values target _ | .data target _ => target

def step? : Write → Option (Update Field Unit)
  | .fill _ value => some (modify fun field => field.fill value)
  | .clear _ => some (modify Field.clear)
  | .values _ readings => some (Field.commit readings)
  | .data _ _ => none

theorem keepsShape_of_step? {write : Write} {step : Update Field Unit}
    (h : write.step? = some step) : step.KeepsShape := by
  cases write with
  | fill target value =>
    cases h
    exact Update.keepsShape_modify fun field => field.sameShape_fill value
  | clear target =>
    cases h
    exact Update.keepsShape_modify fun field => field.sameShape_fill field.sentinel
  | values target values =>
    cases h
    exact Field.keepsShape_commit values
  | data target data => cases h

open Statement

/-- A write to a field is related to itself if the updates of its target are and find the same field
there. -/
theorem related_apply {σ τ : Type} [Host σ] [Host τ] {R : σ → τ → Prop} {write : Write}
    (hstep : write.step?.isSome = true)
    (updates : ∀ step : Update Field Unit, step.KeepsShape →
      Update.Related R (updateOutput write.target step) (updateOutput write.target step))
    (found : ∀ a b, R a b → Host.named? a write.target = Host.named? b write.target) :
    Update.Related R (Write.apply write) (Write.apply write) := by
  cases write with
  | fill target value =>
    exact updates _ (Update.keepsShape_modify fun field => field.sameShape_fill value)
  | clear target =>
    exact updates _ (Update.keepsShape_modify fun field => field.sameShape_fill field.sentinel)
  | values target values =>
    have hcommit : Update.Related R (updateOutput target (Field.commit values))
        (updateOutput target (Field.commit values)) := updates _ (Field.keepsShape_commit values)
    intro a b hab
    have hupdate := hcommit a b hab
    have hnamed : Host.named? a target = Host.named? b target := found a b hab
    unfold Update.outcome Update.after at hupdate ⊢
    simp only [Write.apply, hnamed]
    cases Host.named? b target with
    | none => exact hupdate
    | some field =>
      by_cases hsize : field.size = values.length
      · simpa only [hsize, if_true] using hupdate
      · simpa only [hsize, if_false, true_and] using hab
  | data target data => cases hstep

end Write

open Statement

namespace MemoryScope

theorem updateOutput_eq (name : String) (step : Update Field Unit) (scope : MemoryScope) :
    updateOutput name step scope =
      match scope.target? name with
      | none => .error (.outputUnavailable name) scope
      | some field =>
        match step field with
        | .ok () written => .ok () (scope.replace name written)
        | .error e written => .error e (scope.replace name written) := by
  unfold updateOutput
  simp only [bind, EStateM.bind, outputField, Host.resolveOrCreate?, Host.fieldId?, Host.create?,
    create?, Host.updateField, Host.field?, Host.putField]
  cases hid : scope.store.fieldId? name with
  | some id =>
    obtain ⟨field, hfield, _⟩ := Store.fieldId?_eq_some hid
    have hstored : scope.store.field? name = some field := by simp [Store.field?, hid, hfield]
    have hget : scope.fields[id]? = some field := hfield
    simp only [target?, hstored, hget, replace, hid]
    cases step field <;> rfl
  | none =>
    have hstored : scope.store.field? name = none := by simp [Store.field?, hid]
    simp only [target?, hstored]
    cases hmodel : scope.model? name with
    | none => simp
    | some field =>
      -- The new field is the last one, so its handle is the number of fields before.
      have hlast (new : Field) :
          (scope.fields.push field).setIfInBounds scope.fields.size new =
            scope.fields.push new := by
        grind
      simp only [Option.map_some, install, if_true, fields_setFields, Array.getElem?_push_size,
        replace, hid, hlast]
      cases step field <;> rfl

theorem updateOutput_of_none {name : String} {scope : MemoryScope} (h : scope.target? name = none)
    (step : Update Field Unit) :
    updateOutput name step scope = .error (.outputUnavailable name) scope := by
  rw [updateOutput_eq, h]

section

variable {name : String} {scope : MemoryScope} {old : Field}

theorem outcome_updateOutput (hold : scope.target? name = some old) (step : Update Field Unit) :
    (updateOutput name step).outcome scope = step.outcome old := by
  unfold Update.outcome
  rw [updateOutput_eq, hold]
  cases hstep : step old <;> simp only [hstep]

theorem after_updateOutput (hold : scope.target? name = some old) (step : Update Field Unit) :
    (updateOutput name step).after scope = scope.replace name (step.after old) := by
  unfold Update.after
  rw [updateOutput_eq, hold]
  cases hstep : step old <;> simp only [hstep]

end

theorem WellFormed.updateOutput {scope : MemoryScope} (wf : scope.WellFormed) (name : String)
    {step : Update Field Unit} (shape : step.KeepsShape) :
    (Update.after (updateOutput name step) scope).WellFormed := by
  cases htarget : scope.target? name with
  | none =>
    rw [Update.after_of_error (updateOutput_of_none htarget step)]
    exact wf
  | some old =>
    rw [after_updateOutput htarget]
    exact wf.replace htarget (shape old)

end MemoryScope

end FieldScript
