import FieldScript.Field.Shape

/-! What a field reads once values were written to it. A committed value is stored as it is, so it
reads as itself unless it is the sentinel; committing never touches points past the values. -/
namespace FieldScript

namespace Update

variable {α : Type} {step : Update Field α} {field written : Field}

theorem KeepsShape.of_ok (h : step.KeepsShape) {a : α} (hstep : step field = .ok a written) :
    field.SameShape written := by
  simpa [after, hstep] using h field

end Update

namespace Field

/-- What a value reads as once this field stores it. -/
def settle (field : Field) (value : Option Binary64) : Option Binary64 :=
  value.filter fun v => !field.isSentinel v

theorem isSentinel_sentinel (field : Field) : field.isSentinel field.sentinel = true := by
  unfold isSentinel
  cases hnan : field.sentinel.isNaN with
  | true => simp
  | false =>
    have hle : field.sentinel ≤ field.sentinel := ⟨hnan, hnan, Int.le_refl _⟩
    simp [Binary64.same, hle]

theorem SameShape.settle_eq {before after : Field} (h : before.SameShape after) :
    after.settle = before.settle := by
  funext value
  simp only [settle, isSentinel, h.sentinel]

theorem read_of_stored {field : Field} {index : Nat} {value : Option Binary64}
    (h : field.values[index]? = some (value.getD field.sentinel)) :
    field.read index = field.settle value := by
  unfold read
  rw [h]
  cases value with
  | none => simp [settle, isSentinel_sentinel]
  | some v => cases hv : field.isSentinel v <;> simp [settle, Option.filter, hv]

theorem read_of_size_le {field : Field} {index : Nat} (h : field.size ≤ index) :
    field.read index = none := by
  unfold read
  rw [Array.getElem?_eq_none h]

theorem settle_read (field : Field) (index : Nat) :
    field.settle (field.read index) = field.read index := by
  unfold read
  cases hvalue : field.values[index]? with
  | none => rfl
  | some v => cases hv : field.isSentinel v <;> simp [settle, Option.filter, hv]

@[simp] theorem length_readings (field : Field) : field.readings.length = field.size := by
  simp [readings]

theorem putOption_ok {index : Nat} {value : Option Binary64} {field written : Field}
    (h : putOption index value field = .ok () written) :
    index < field.size ∧ written = { field with
      values := field.values.setIfInBounds index (value.getD field.sentinel) } := by
  have hput (v : Binary64) (hv : put index v field = .ok () written) : index < field.size ∧
      written = { field with values := field.values.setIfInBounds index v } := by
    unfold put at hv
    split at hv
    · cases hv
      exact ⟨by assumption, rfl⟩
    · cases hv
  cases value with
  | none => exact hput field.sentinel h
  | some v => exact hput v h

theorem getElem?_commitFrom {values : List (Option Binary64)} {index : Nat} {field written : Field}
    (h : commitFrom index values field = .ok () written) (point : Nat) :
    written.values[point]? =
      if index ≤ point ∧ point < index + values.length then
        (values[point - index]?).map fun value => value.getD field.sentinel
      else field.values[point]? := by
  induction values generalizing index field with
  | nil =>
    cases h
    rw [if_neg]
    intro hin
    exact absurd hin.2 (Nat.not_lt.mpr hin.1)
  | cons value rest ih =>
    simp only [commitFrom, bind, EStateM.bind] at h
    split at h
    · rename_i middle hput
      obtain ⟨hlt, rfl⟩ := putOption_ok hput
      have hsize : index < field.values.size := hlt
      rw [ih h, List.length_cons, Array.getElem?_setIfInBounds]
      by_cases hpoint : index = point
      · subst hpoint
        rw [if_neg (by omega), if_pos (by omega), Nat.sub_self]
        simp [hsize]
      · by_cases hin : index + 1 ≤ point ∧ point < index + 1 + rest.length
        · have hsub : point - index = point - (index + 1) + 1 := by omega
          rw [if_pos hin, if_pos (by omega), hsub, List.getElem?_cons_succ]
        · rw [if_neg hin, if_neg hpoint, if_neg (by omega)]
    · cases h

theorem commitFrom_ok (values : List (Option Binary64)) (index : Nat) (field : Field)
    (h : index + values.length ≤ field.size) :
    ∃ written, commitFrom index values field = .ok () written := by
  induction values generalizing index field with
  | nil => exact ⟨field, rfl⟩
  | cons value rest ih =>
    simp only [List.length_cons] at h
    have hlt : index < field.size := by omega
    obtain ⟨middle, hput⟩ : ∃ middle, putOption index value field = .ok () middle := by
      cases value <;> simp [putOption, putMissing, put, hlt]
    have hsize : middle.size = field.size := by
      have shape := keepsShape_putOption index value field
      simp only [Update.after, hput] at shape
      exact shape.size
    obtain ⟨written, hrest⟩ := ih (index + 1) middle (by omega)
    exact ⟨written, by simp [commitFrom, bind, EStateM.bind, hput, hrest]⟩

theorem commit_ok {values : List (Option Binary64)} {field : Field}
    (h : values.length = field.size) : ∃ written, commit values field = .ok () written :=
  commitFrom_ok values 0 field (by omega)

theorem commit_eq {values : List (Option Binary64)} {field : Field}
    (h : values.length = field.size) : commit values field = .ok () { field with
      values := (values.map fun value => value.getD field.sentinel).toArray } := by
  obtain ⟨written, hwritten⟩ := commit_ok h
  have shape := (keepsShape_commit values).of_ok hwritten
  have hvalues : written.values =
      (values.map fun value => value.getD field.sentinel).toArray := by
    refine Array.ext_getElem? fun point => ?_
    have hright : (values.map fun value => value.getD field.sentinel).toArray[point]? =
        values[point]?.map fun value => value.getD field.sentinel := by simp
    rw [getElem?_commitFrom hwritten, Nat.zero_add, Nat.sub_zero, hright]
    by_cases hpoint : point < values.length
    · rw [if_pos ⟨Nat.zero_le _, hpoint⟩]
    · have hsize : field.values.size ≤ point := by
        have hfield : field.values.size = values.length := h.symm
        omega
      rw [if_neg fun hin => hpoint hin.2, List.getElem?_eq_none (by omega),
        Array.getElem?_eq_none hsize]
      rfl
  obtain ⟨name, stored, sentinel⟩ := written
  obtain ⟨rfl, rfl, _⟩ := shape
  cases hvalues
  exact hwritten

theorem read_commit {values : List (Option Binary64)} {field written : Field}
    (hsize : values.length = field.size) (h : commit values field = .ok () written) (point : Nat) :
    written.read point = written.settle (values[point]?.join) := by
  have shape : field.SameShape written := by
    simpa [Update.after, h] using keepsShape_commit values field
  have hstored := getElem?_commitFrom h point
  cases hvalue : values[point]? with
  | none =>
    rw [read_of_size_le]
    · rfl
    · rw [shape.size, ← hsize]
      exact List.getElem?_eq_none_iff.mp hvalue
  | some value =>
    obtain ⟨hlt, _⟩ := List.getElem?_eq_some_iff.mp hvalue
    rw [if_pos (by omega), Nat.sub_zero, hvalue, Option.map_some, ← shape.sentinel] at hstored
    exact read_of_stored hstored

theorem read_fill {field : Field} {value : Option Binary64} {point : Nat} (h : point < field.size) :
    (field.fill (value.getD field.sentinel)).read point =
      (field.fill (value.getD field.sentinel)).settle value := by
  apply read_of_stored
  have hlt : point < field.values.size := h
  simp [fill, hlt]

end Field

end FieldScript
