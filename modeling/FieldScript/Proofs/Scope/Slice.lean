import FieldScript.Proofs.Field.Slice
import FieldScript.Proofs.Scope.Frame

/-! A scope in memory beside one with the same stretch of each of its fields. Names have the same
handles in both, and writes that come to the same on a stretch of a field keep the two side by
side. -/
namespace FieldScript.MemoryScope

open Statement

/-- A scope of so many points beside one that holds a stretch of every field. -/
structure Sliced (start stop count : Nat) (whole part : MemoryScope) : Prop where
  wellFormed : whole.WellFormed
  points : whole.pointCount = count
  fields : part.fields = whole.fields.map (Field.slice start stop)

namespace Sliced

variable {start stop count : Nat} {whole part : MemoryScope}

theorem getElem?_eq (sliced : Sliced start stop count whole part) (id : Nat) :
    part.fields[id]? = whole.fields[id]?.map (Field.slice start stop) := by
  rw [sliced.fields, Array.getElem?_map]

theorem fieldId?_eq (sliced : Sliced start stop count whole part) (name : String) :
    part.store.fieldId? name = whole.store.fieldId? name := by
  have hfields : part.store.fields = whole.store.fields.map (Field.slice start stop) := sliced.fields
  unfold Store.fieldId?
  rw [hfields, Array.findIdx?_map]
  rfl

theorem field?_eq (sliced : Sliced start stop count whole part) (name : String) :
    part.store.field? name = (whole.store.field? name).map (Field.slice start stop) := by
  unfold Store.field?
  rw [sliced.fieldId?_eq]
  cases whole.store.fieldId? name with
  | none => rfl
  | some id => exact sliced.getElem?_eq id

theorem pointCount_eq (sliced : Sliced start stop count whole part) :
    part.pointCount = min stop count - start := by
  rw [← sliced.points]
  unfold pointCount
  rw [sliced.getElem?_eq]
  cases whole.fields[0]? with
  | none => simp
  | some first => exact first.size_slice

theorem model?_eq (sliced : Sliced start stop count whole part) (name : String) :
    part.model? name = (whole.model? name).map (Field.slice start stop) := by
  unfold model?
  rw [sliced.getElem?_eq]
  cases whole.fields[0]? with
  | none => rfl
  | some first =>
    simp only [Option.map_some, Field.slice_absent, Field.size_slice]
    rfl

theorem target?_eq (sliced : Sliced start stop count whole part) (name : String) :
    part.target? name = (whole.target? name).map (Field.slice start stop) := by
  unfold target?
  rw [sliced.field?_eq, sliced.model?_eq]
  cases whole.store.field? name <;> rfl

theorem part_wellFormed (sliced : Sliced start stop count whole part) : part.WellFormed where
  distinct i j a b ha hb hab := by
    rw [sliced.getElem?_eq] at ha hb
    obtain ⟨field, hfield, rfl⟩ := Option.map_eq_some_iff.mp ha
    obtain ⟨field', hfield', rfl⟩ := Option.map_eq_some_iff.mp hb
    exact sliced.wellFormed.distinct i j field field' hfield hfield' hab
  sameSize i a ha := by
    rw [sliced.getElem?_eq] at ha
    obtain ⟨field, hfield, rfl⟩ := Option.map_eq_some_iff.mp ha
    rw [Field.size_slice, sliced.pointCount_eq, ← sliced.points,
      sliced.wellFormed.sameSize i field hfield]

theorem replace (sliced : Sliced start stop count whole part) {name : String} {old new : Field}
    (hold : whole.target? name = some old) (shape : old.SameShape new) :
    Sliced start stop count (whole.replace name new)
      (part.replace name (new.slice start stop)) where
  wellFormed := sliced.wellFormed.replace hold shape
  points := (pointCount_replace sliced.wellFormed hold shape).trans sliced.points
  fields := by
    unfold MemoryScope.replace
    rw [sliced.fieldId?_eq]
    cases whole.store.fieldId? name with
    | none => simp [sliced.fields]
    | some id => simp [sliced.fields]

end Sliced

theorem related_updateOutput {start stop count : Nat} {step step' : Update Field Unit}
    (keeps : step.KeepsShape) (h : Update.Related (Field.Sliced start stop count) step step')
    (name : String) : Update.Related (Sliced start stop count) (updateOutput name step)
      (updateOutput name step') := by
  intro whole part sliced
  have htarget := sliced.target?_eq name
  cases hold : whole.target? name with
  | none =>
    rw [hold, Option.map_none] at htarget
    simp only [Update.outcome, Update.after, updateOutput_of_none htarget, updateOutput_of_none hold]
    exact ⟨trivial, sliced⟩
  | some old =>
    rw [hold, Option.map_some] at htarget
    have hsize : old.size = count := (size_target sliced.wellFormed hold).trans sliced.points
    obtain ⟨houtcome, _, hafter⟩ := h old _ ⟨hsize, rfl⟩
    rw [outcome_updateOutput htarget, outcome_updateOutput hold, after_updateOutput htarget,
      after_updateOutput hold, hafter]
    exact ⟨houtcome, sliced.replace hold (keeps old)⟩

end FieldScript.MemoryScope
