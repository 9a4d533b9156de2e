import FieldScript.Host.Memory

/-! What holds of every scope in memory: names are distinct and all fields have one length. A write
to a name starts from the field with that name, or from the model of a new one, and the invariant
needs no more of it than that it keeps the field's shape. -/
namespace FieldScript

theorem setIfInBounds_of_getElem? {α : Type} {xs : Array α} {i : Nat} {x : α}
    (h : xs[i]? = some x) : xs.setIfInBounds i x = xs := by
  obtain ⟨hlt, rfl⟩ := Array.getElem?_eq_some_iff.mp h
  simp [Array.setIfInBounds, hlt]

namespace Store

theorem fieldId?_eq_some {store : Store} {name : String} {id : Nat}
    (h : store.fieldId? name = some id) :
    ∃ field, store.fields[id]? = some field ∧ field.name = name := by
  unfold fieldId? at h
  obtain ⟨hlt, hname, _⟩ := Array.findIdx?_eq_some_iff_getElem.mp h
  exact ⟨store.fields[id], Array.getElem?_eq_getElem hlt, by simpa using hname⟩

theorem fieldId?_eq_none {store : Store} {name : String} (h : store.fieldId? name = none)
    {i : Nat} {field : Field} (hi : store.fields[i]? = some field) : field.name ≠ name := by
  unfold fieldId? at h
  have hmem : field ∈ store.fields := Array.mem_of_getElem? hi
  simpa using Array.findIdx?_eq_none_iff.mp h field hmem

theorem field?_eq_some {store : Store} {name : String} {field : Field}
    (h : store.field? name = some field) :
    ∃ id, store.fieldId? name = some id ∧ store.fields[id]? = some field :=
  Option.bind_eq_some_iff.mp h

theorem isSome_fieldId? (store : Store) (name : String) :
    (store.fieldId? name).isSome = (store.field? name).isSome := by
  unfold field?
  cases hid : store.fieldId? name with
  | none => rfl
  | some id =>
    obtain ⟨field, hfield, _⟩ := fieldId?_eq_some hid
    simp [hfield]

end Store

namespace MemoryScope

structure WellFormed (scope : MemoryScope) : Prop where
  distinct : ∀ (i j : Nat) (a b : Field), scope.fields[i]? = some a →
    scope.fields[j]? = some b → a.name = b.name → i = j
  sameSize : ∀ (i : Nat) (field : Field), scope.fields[i]? = some field →
    field.size = scope.pointCount

theorem WellFormed.size_named {scope : MemoryScope} (wf : scope.WellFormed) {name : String}
    {field : Field} (h : scope.store.field? name = some field) : field.size = scope.pointCount := by
  obtain ⟨id, _, hfield⟩ := Store.field?_eq_some h
  exact wf.sameSize id field hfield

theorem WellFormed.fieldId?_eq_some_iff {scope : MemoryScope} (wf : scope.WellFormed) {name : String}
    {id : Nat} : scope.store.fieldId? name = some id ↔
      ∃ field, scope.fields[id]? = some field ∧ field.name = name := by
  constructor
  · exact Store.fieldId?_eq_some
  · rintro ⟨field, hfield, hname⟩
    cases hfound : scope.store.fieldId? name with
    | none => exact absurd hname (Store.fieldId?_eq_none hfound hfield)
    | some other =>
      obtain ⟨twin, htwin, htwinName⟩ := Store.fieldId?_eq_some hfound
      rw [wf.distinct other id twin field htwin hfield (htwinName.trans hname.symm)]

theorem WellFormed.field?_eq_some_iff {scope : MemoryScope} (wf : scope.WellFormed) {name : String}
    {field : Field} : scope.store.field? name = some field ↔
      ∃ id : Nat, scope.fields[id]? = some field ∧ field.name = name := by
  constructor
  · intro h
    obtain ⟨id, hid, hfield⟩ := Store.field?_eq_some h
    obtain ⟨found, hfound, hname⟩ := Store.fieldId?_eq_some hid
    cases hfield.symm.trans hfound
    exact ⟨id, hfield, hname⟩
  · rintro ⟨id, hfield, hname⟩
    rw [Store.field?, wf.fieldId?_eq_some_iff.mpr ⟨field, hfield, hname⟩]
    exact hfield

/-- The field that a write to a name starts from. -/
def target? (scope : MemoryScope) (name : String) : Option Field :=
  match scope.store.field? name with
  | some field => some field
  | none => scope.model? name

/-- The scope with this field under the name: in its place, or as a new last field. -/
def replace (scope : MemoryScope) (name : String) (field : Field) : MemoryScope :=
  match scope.store.fieldId? name with
  | some id => scope.setFields (scope.fields.setIfInBounds id field)
  | none => scope.setFields (scope.fields.push field)

@[simp] theorem fields_setFields (scope : MemoryScope) (fields : Array Field) :
    (scope.setFields fields).fields = fields := rfl

@[simp] theorem fields_setUserData (scope : MemoryScope) (userData : UserDataStore) :
    (scope.setUserData userData).fields = scope.fields := rfl

theorem wellFormed_of_fields_eq {a b : MemoryScope} (h : b.fields = a.fields) (wf : a.WellFormed) :
    b.WellFormed := by
  have hcount : b.pointCount = a.pointCount := by simp [pointCount, h]
  exact ⟨by rw [h]; exact wf.distinct, by rw [h, hcount]; exact wf.sameSize⟩

theorem wellFormed_of_no_fields {scope : MemoryScope} (h : scope.fields = #[]) :
    scope.WellFormed := by
  constructor <;> simp [h]

theorem size_model {scope : MemoryScope} {name : String} {field : Field}
    (h : scope.model? name = some field) : field.size = scope.pointCount := by
  unfold model? at h
  obtain ⟨first, hfirst, rfl⟩ := Option.map_eq_some_iff.mp h
  simp [pointCount, hfirst, Field.absent, Field.size]

theorem model?_isSome {scope : MemoryScope} (h : 0 < scope.fields.size) (name : String) :
    (scope.model? name).isSome := by
  simp [model?, h]

theorem fields_nonempty_of_model {scope : MemoryScope} {name : String}
    (h : (scope.model? name).isSome) : 0 < scope.fields.size := by
  simpa [model?] using h

theorem fields_nonempty_of_getElem? {scope : MemoryScope} {id : Nat} {field : Field}
    (h : scope.fields[id]? = some field) : 0 < scope.fields.size :=
  Nat.zero_lt_of_lt (Array.getElem?_eq_some_iff.mp h).1

theorem fields_nonempty_of_fieldId? {scope : MemoryScope} {name : String}
    (h : (scope.store.fieldId? name).isSome) : 0 < scope.fields.size := by
  obtain ⟨id, hid⟩ := Option.isSome_iff_exists.mp h
  obtain ⟨field, hfield, _⟩ := Store.fieldId?_eq_some hid
  exact fields_nonempty_of_getElem? hfield

theorem target?_isSome {scope : MemoryScope} (h : 0 < scope.fields.size) (name : String) :
    ∃ field, scope.target? name = some field := by
  unfold target?
  cases scope.store.field? name with
  | some field => exact ⟨field, rfl⟩
  | none => exact Option.isSome_iff_exists.mp (model?_isSome h name)

theorem fields_nonempty_of_target {scope : MemoryScope} {name : String} {field : Field}
    (h : scope.target? name = some field) : 0 < scope.fields.size := by
  unfold target? at h
  split at h
  · rename_i hstored
    obtain ⟨id, _, hget⟩ := Store.field?_eq_some hstored
    exact fields_nonempty_of_getElem? hget
  · exact fields_nonempty_of_model (Option.isSome_of_eq_some h)

theorem name_target {scope : MemoryScope} {name : String} {field : Field}
    (h : scope.target? name = some field) : field.name = name := by
  unfold target? at h
  cases hstored : scope.store.field? name with
  | some stored =>
    obtain ⟨id, hid, hget⟩ := Store.field?_eq_some hstored
    obtain ⟨found, hfound, hname⟩ := Store.fieldId?_eq_some hid
    simp_all
  | none =>
    rw [hstored] at h
    obtain ⟨first, _, rfl⟩ := Option.map_eq_some_iff.mp h
    rfl

theorem size_target {scope : MemoryScope} {name : String} {field : Field} (wf : scope.WellFormed)
    (h : scope.target? name = some field) : field.size = scope.pointCount := by
  unfold target? at h
  cases hstored : scope.store.field? name with
  | some stored =>
    rw [hstored] at h
    cases h
    exact wf.size_named hstored
  | none =>
    rw [hstored] at h
    exact size_model h

theorem size_fields_replace (scope : MemoryScope) (name : String) (field : Field) :
    scope.fields.size ≤ (scope.replace name field).fields.size := by
  unfold replace
  cases scope.store.fieldId? name <;> simp

theorem getElem?_replace {scope : MemoryScope} {name : String} {new field : Field} {i : Nat}
    (h : (scope.replace name new).fields[i]? = some field) :
    scope.fields[i]? = some field ∨ field = new ∧
      (scope.store.fieldId? name = some i ∨
        scope.store.fieldId? name = none ∧ i = scope.fields.size) := by
  unfold replace at h
  cases hid : scope.store.fieldId? name with
  | some id =>
    simp only [hid, fields_setFields, Array.getElem?_setIfInBounds] at h
    split at h
    · rename_i heq
      subst heq
      split at h
      · exact .inr ⟨(Option.some.inj h).symm, .inl rfl⟩
      · cases h
    · exact .inl h
  | none =>
    simp only [hid, fields_setFields, Array.getElem?_push] at h
    split at h
    · exact .inr ⟨(Option.some.inj h).symm, .inr ⟨rfl, by assumption⟩⟩
    · exact .inl h

theorem pointCount_replace {scope : MemoryScope} {name : String} {old new : Field}
    (wf : scope.WellFormed) (hold : scope.target? name = some old) (shape : old.SameShape new) :
    (scope.replace name new).pointCount = scope.pointCount := by
  have hnew : new.size = scope.pointCount := shape.size.trans (size_target wf hold)
  cases hfirst : (scope.replace name new).fields[0]? with
  | none =>
    have hsize := size_fields_replace scope name new
    have hnone : scope.fields[0]? = none := by
      simp only [Array.getElem?_eq_none_iff] at hfirst ⊢
      omega
    simp [pointCount, hfirst, hnone]
  | some first =>
    simp only [pointCount, hfirst]
    rcases getElem?_replace hfirst with hget | ⟨rfl, _⟩
    · exact wf.sameSize 0 first hget
    · exact hnew

theorem WellFormed.replace {scope : MemoryScope} {name : String} {old new : Field}
    (wf : scope.WellFormed) (hold : scope.target? name = some old) (shape : old.SameShape new) :
    (scope.replace name new).WellFormed := by
  have hname : new.name = name := shape.name.trans (name_target hold)
  have hnew : new.size = scope.pointCount := shape.size.trans (size_target wf hold)
  -- A field that was there before shares the new name only in the place of the new field.
  have place : ∀ i j a, scope.fields[i]? = some a → a.name = name →
      (scope.store.fieldId? name = some j ∨
        scope.store.fieldId? name = none ∧ j = scope.fields.size) → i = j := by
    intro i j a ha hname' hj
    rcases hj with hid | ⟨hid, _⟩
    · obtain ⟨b, hb, hbname⟩ := Store.fieldId?_eq_some hid
      exact wf.distinct i j a b ha hb (hname'.trans hbname.symm)
    · exact absurd hname' (Store.fieldId?_eq_none hid ha)
  constructor
  · intro i j a b ha hb hab
    rcases getElem?_replace ha with oldA | ⟨rfl, hi⟩ <;>
      rcases getElem?_replace hb with oldB | ⟨rfl, hj⟩
    · exact wf.distinct i j a b oldA oldB hab
    · exact place i j a oldA (hab.trans hname) hj
    · exact (place j i b oldB (hab.symm.trans hname) hi).symm
    · rcases hi with hi | ⟨hi, rfl⟩ <;> rcases hj with hj | ⟨hj, rfl⟩ <;> simp_all
  · intro i field hfield
    rw [pointCount_replace wf hold shape]
    rcases getElem?_replace hfield with hget | ⟨rfl, _⟩
    · exact wf.sameSize i field hget
    · exact hnew

end MemoryScope

end FieldScript
