import FieldScript.Host.Bare
import FieldScript.Proofs.Scope.Writing

/-! Writes to a bare scope. Fields may have any lengths here, and a field may be asked for that the
scope models but does not create. A write of values fails for one of three reasons, and leaves
something behind only where a new field is too short for them. -/
namespace FieldScript

theorem Field.commitFrom_past (values : List (Option Binary64)) (index : Nat) (field : Field)
    (start : index ≤ field.size) (past : field.size < index + values.length) :
    ∃ written, Field.commitFrom index values field =
      .error (.indexOutOfRange field.name field.size field.size) written := by
  induction values generalizing index field with
  | nil => simp only [List.length_nil] at past; omega
  | cons value rest ih =>
    rcases Nat.lt_or_eq_of_le start with hlt | rfl
    · obtain ⟨middle, hput⟩ : ∃ middle, Field.putOption index value field = .ok () middle := by
        cases value <;> simp [Field.putOption, Field.putMissing, Field.put, hlt]
      have shape := (Field.keepsShape_putOption index value).of_ok hput
      rw [List.length_cons] at past
      obtain ⟨written, hrest⟩ := ih (index + 1) middle (by rw [shape.size]; omega)
        (by rw [shape.size]; omega)
      rw [shape.name, shape.size] at hrest
      exact ⟨written, by simp [Field.commitFrom, bind, EStateM.bind, hput, hrest]⟩
    · refine ⟨field, ?_⟩
      cases value <;> simp [Field.commitFrom, bind, EStateM.bind, Field.putOption, Field.putMissing,
        Field.put]

namespace BareScope

open Statement

variable {scope : BareScope} {name other : String} {field written : Field}

def store (scope : BareScope) : Store := ⟨scope.fields, .empty .owning⟩

theorem fieldId?_eq_some {id : Nat} (h : Host.fieldId? scope name = some id) :
    ∃ field, scope.fields[id]? = some field ∧ field.name = name := by
  have hstored : scope.store.fieldId? name = some id := h
  exact Store.fieldId?_eq_some hstored

theorem named?_eq_some (h : Host.named? scope name = some field) :
    ∃ id, Host.fieldId? scope name = some id ∧ scope.fields[id]? = some field ∧
      field.name = name := by
  have hstored : scope.store.field? name = some field := h
  obtain ⟨id, hid, hfield⟩ := Store.field?_eq_some hstored
  obtain ⟨found, hfound, hname⟩ := Store.fieldId?_eq_some hid
  cases hfield.symm.trans hfound
  exact ⟨id, hid, hfield, hname⟩

theorem named?_eq_none_iff : Host.named? scope name = none ↔ Host.fieldId? scope name = none := by
  constructor
  · intro h
    cases hid : Host.fieldId? scope name with
    | none => rfl
    | some id =>
      obtain ⟨field, hfield, _⟩ := fieldId?_eq_some hid
      have hnamed : Host.named? scope name = some field :=
        Option.bind_eq_some_iff.mpr ⟨id, hid, hfield⟩
      rw [hnamed] at h
      cases h
  · intro h
    exact Option.bind_eq_none_iff.mpr fun id hid => by rw [h] at hid; cases hid

def target? (scope : BareScope) (name : String) : Option Field :=
  match Host.named? scope name with
  | some field => some field
  | none => if scope.creates then some (scope.absentField name) else none

def replace (scope : BareScope) (name : String) (field : Field) : BareScope :=
  match Host.fieldId? scope name with
  | some id => { scope with fields := scope.fields.setIfInBounds id field }
  | none => { scope with fields := scope.fields.push field }

theorem updateOutput_eq (name : String) (step : Update Field Unit) (scope : BareScope) :
    updateOutput name step scope =
      match scope.target? name with
      | none => .error (.outputUnavailable name) scope
      | some field =>
        match step field with
        | .ok () written => .ok () (scope.replace name written)
        | .error e written => .error e (scope.replace name written) := by
  unfold updateOutput target? replace
  simp only [bind, EStateM.bind, outputField, Host.resolveOrCreate?, Host.updateField]
  cases hnamed : Host.named? scope name with
  | some field =>
    obtain ⟨id, hid, hfield, _⟩ := named?_eq_some hnamed
    have hget : Host.field? scope id = some field := hfield
    simp only [hid, hget]
    cases step field <;> rfl
  | none =>
    rw [named?_eq_none_iff.mp hnamed]
    cases hcreates : scope.creates with
    | false => simp [Host.create?, hcreates]
    | true =>
      have hlast (new : Field) :
          (scope.fields.push (scope.absentField name)).setIfInBounds scope.fields.size new =
            scope.fields.push new := by
        simp [Array.setIfInBounds, Array.set_push]
      simp only [Host.create?, hcreates, if_true, Host.field?, Array.getElem?_push_size,
        Host.putField, hlast]
      cases step (scope.absentField name) <;> rfl

@[simp] theorem pointCount_replace : (scope.replace name field).pointCount = scope.pointCount := by
  unfold replace
  split <;> rfl

@[simp] theorem creates_replace : (scope.replace name field).creates = scope.creates := by
  unfold replace
  split <;> rfl

theorem replace_self (h : Host.named? scope name = some field) :
    scope.replace name field = scope := by
  obtain ⟨id, hid, hfield, _⟩ := named?_eq_some h
  rw [replace, hid]
  simp only [setIfInBounds_of_getElem? hfield]

theorem replace_ne (h : Host.named? scope name = some field) (hne : written ≠ field) :
    scope.replace name written ≠ scope := by
  obtain ⟨id, hid, hfield, _⟩ := named?_eq_some h
  intro heq
  rw [replace, hid] at heq
  have hfields : scope.fields.setIfInBounds id written = scope.fields :=
    congrArg BareScope.fields heq
  have hstored : (scope.fields.setIfInBounds id written)[id]? = some written :=
    Array.getElem?_setIfInBounds_self_of_lt (Array.getElem?_eq_some_iff.mp hfield).1
  rw [hfields, hfield] at hstored
  exact hne (Option.some.inj hstored).symm

theorem fieldId?_eq_names (scope : BareScope) (name : String) :
    Host.fieldId? scope name = (scope.fields.map Field.name).findIdx? (· == name) := by
  rw [Array.findIdx?_map]
  rfl

theorem fieldId?_replace_of_ne (h : written.name = name) (hne : other ≠ name) :
    Host.fieldId? (scope.replace name written) other = Host.fieldId? scope other := by
  rw [fieldId?_eq_names, fieldId?_eq_names scope other, replace]
  cases hid : Host.fieldId? scope name with
  | some id =>
    obtain ⟨field, hfield, hname⟩ := fieldId?_eq_some hid
    have hnames : (scope.fields.map Field.name)[id]? = some written.name := by
      rw [Array.getElem?_map, hfield, h, ← hname]
      rfl
    simp only [Array.map_setIfInBounds, setIfInBounds_of_getElem? hnames]
  | none =>
    have hother : (name == other) = false := by simpa using Ne.symm hne
    simp only [Array.map_push, Array.findIdx?_push, h, hother, Bool.false_eq_true, if_false,
      Option.or_none]

theorem named?_replace_of_ne (h : written.name = name) (hne : other ≠ name) :
    Host.named? (scope.replace name written) other = Host.named? scope other := by
  have hsame : Host.fieldId? (scope.replace name written) other = Host.fieldId? scope other :=
    fieldId?_replace_of_ne h hne
  unfold Host.named?
  rw [hsame]
  cases hid : Host.fieldId? scope other with
  | none => rfl
  | some id =>
    obtain ⟨field, hfield, hname⟩ := fieldId?_eq_some hid
    change (scope.replace name written).fields[id]? = scope.fields[id]?
    rw [hfield, replace]
    cases hid' : Host.fieldId? scope name with
    | some id' =>
      obtain ⟨field', hfield', hname'⟩ := fieldId?_eq_some hid'
      have hapart : id' ≠ id := by
        rintro rfl
        cases hfield.symm.trans hfield'
        exact hne (hname.symm.trans hname')
      rw [Array.getElem?_setIfInBounds, if_neg hapart, hfield]
    | none =>
      have hlt : id < scope.fields.size := (Array.getElem?_eq_some_iff.mp hfield).1
      simp only [Array.getElem?_push, Nat.ne_of_lt hlt, if_false, hfield]

inductive ValuesFailure (scope : BareScope) (target : String) (values : List (Option Binary64)) :
    BareScope → Prop where
  | mismatch {field : Field} (stored : Host.named? scope target = some field)
    (lengths : field.size ≠ values.length) : ValuesFailure scope target values scope
  | unavailable (absent : Host.named? scope target = none) (refused : scope.creates = false) :
    ValuesFailure scope target values scope
  | past {written : Field} (absent : Host.named? scope target = none)
    (created : scope.creates = true) (longer : scope.pointCount < values.length) :
    ValuesFailure scope target values (scope.replace target written)

variable {target : String} {values : List (Option Binary64)} {after : BareScope}

theorem apply_values_stored (stored : Host.named? scope target = some field)
    (lengths : field.size = values.length) : ∃ written, written.name = target ∧
      Field.commit values field = .ok () written ∧
        Write.apply (.values target values) scope = .ok () (scope.replace target written) := by
  obtain ⟨written, hcommit⟩ := Field.commit_ok lengths.symm
  obtain ⟨_, _, _, hname⟩ := named?_eq_some stored
  refine ⟨written, ((Field.keepsShape_commit values).of_ok hcommit).name.trans hname, hcommit, ?_⟩
  simp only [Write.apply, stored, lengths, if_true]
  rw [updateOutput_eq, target?, stored]
  simp only [hcommit]

theorem size_absentField (scope : BareScope) (name : String) :
    (scope.absentField name).size = scope.pointCount := by
  simp [absentField, Field.absent, Field.size]

theorem apply_values_absent (absent : Host.named? scope target = none) :
    Write.apply (.values target values) scope =
      if scope.creates then
        match Field.commit values (scope.absentField target) with
        | .ok () written => .ok () (scope.replace target written)
        | .error e written => .error e (scope.replace target written)
      else .error (.outputUnavailable target) scope := by
  simp only [Write.apply, absent]
  rw [updateOutput_eq, target?, absent]
  cases scope.creates <;> rfl

theorem valuesFailure_of_apply {e : EvalError}
    (h : Write.apply (.values target values) scope = .error e after) :
    ValuesFailure scope target values after := by
  cases hnamed : Host.named? scope target with
  | some field =>
    by_cases lengths : field.size = values.length
    · obtain ⟨written, _, _, happly⟩ := apply_values_stored hnamed lengths
      rw [happly] at h
      cases h
    · simp only [Write.apply, hnamed, lengths, if_false] at h
      cases h
      exact .mismatch hnamed lengths
  | none =>
    rw [apply_values_absent hnamed] at h
    split at h
    · rename_i created
      split at h
      · cases h
      · rename_i hcommit
        cases h
        refine .past hnamed created (Nat.not_le.mp fun hfits => ?_)
        obtain ⟨written, hok⟩ := Field.commitFrom_ok values 0 (scope.absentField target)
          (by rw [size_absentField]; omega)
        rw [Field.commit, hok] at hcommit
        cases hcommit
    · rename_i refused
      cases h
      exact .unavailable hnamed (by simpa using refused)

theorem name_of_target? (h : scope.target? target = some field) : field.name = target := by
  unfold target? at h
  split at h
  · rename_i stored hstored
    cases h
    obtain ⟨_, _, _, hname⟩ := named?_eq_some hstored
    exact hname
  · split at h
    · cases h
      rfl
    · cases h

theorem apply_values_ok (h : Write.apply (.values target values) scope = .ok () after) :
    ∃ field written, scope.target? target = some field ∧ written.name = target ∧
      Field.commit values field = .ok () written ∧ after = scope.replace target written := by
  have hupdate : updateOutput target (Field.commit values) scope = .ok () after := by
    simp only [Write.apply] at h
    split at h
    · split at h
      · exact h
      · cases h
    · exact h
  rw [updateOutput_eq] at hupdate
  split at hupdate
  · cases hupdate
  · rename_i field htarget
    split at hupdate
    · rename_i written hcommit
      cases hupdate
      have hname := ((Field.keepsShape_commit values).of_ok hcommit).name
      exact ⟨field, written, htarget, hname.trans (name_of_target? htarget), hcommit, rfl⟩
    · cases hupdate

theorem apply_values_past (absent : Host.named? scope target = none)
    (created : scope.creates = true) (longer : scope.pointCount < values.length) :
    ∃ e after, Write.apply (.values target values) scope = .error e after ∧ after ≠ scope := by
  obtain ⟨written, hcommit⟩ := Field.commitFrom_past values 0 (scope.absentField target)
    (Nat.zero_le _) (by rw [size_absentField]; omega)
  rw [apply_values_absent absent, if_pos created, Field.commit, hcommit]
  refine ⟨_, _, rfl, fun heq => ?_⟩
  rw [replace, named?_eq_none_iff.mp absent] at heq
  have hsize := congrArg (fun after => after.fields.size) heq
  simp at hsize

end BareScope

end FieldScript
