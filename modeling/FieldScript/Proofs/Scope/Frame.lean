import FieldScript.Proofs.Scope.Writing

/-! What writing fields leaves alone. A frame names the fields that may have been written: they may
have other values or be new, and nothing else of the scope has changed. Frames compose, and the
fields outside one keep their handles. -/
namespace FieldScript.MemoryScope

/-- Every field is still behind its handle, with values that may differ; others may have been added. -/
def KeepsHandles (before after : MemoryScope) : Prop :=
  ∀ (id : Nat) (field : Field), before.fields[id]? = some field →
    ∃ field', after.fields[id]? = some field' ∧ field.SameShape field'

namespace KeepsHandles

variable {before middle after : MemoryScope}

theorem of_fields_eq (h : after.fields = before.fields) : KeepsHandles before after :=
  fun _ field hfield => ⟨field, by rw [h, hfield], Field.SameShape.refl field⟩

theorem trans (first : KeepsHandles before middle) (second : KeepsHandles middle after) :
    KeepsHandles before after := by
  intro id field hfield
  obtain ⟨field', hfield', shape⟩ := first id field hfield
  obtain ⟨field'', hfield'', shape'⟩ := second id field' hfield'
  exact ⟨field'', hfield'', shape.trans shape'⟩

theorem size_le (kept : KeepsHandles before after) : before.fields.size ≤ after.fields.size := by
  refine Nat.le_of_not_lt fun hlt => ?_
  obtain ⟨field', hfield', _⟩ := kept after.fields.size _ (Array.getElem?_eq_getElem hlt)
  exact Nat.lt_irrefl _ (Array.getElem?_eq_some_iff.mp hfield').1

theorem fieldId?_eq_some (kept : KeepsHandles before after) (wf : after.WellFormed) {name : String}
    {id : Nat} (h : before.store.fieldId? name = some id) :
    after.store.fieldId? name = some id := by
  obtain ⟨field, hfield, hname⟩ := Store.fieldId?_eq_some h
  obtain ⟨field', hfield', shape⟩ := kept id field hfield
  exact wf.fieldId?_eq_some_iff.mpr ⟨field', hfield', shape.name.trans hname⟩

theorem exists_first (kept : KeepsHandles before after) (nonempty : 0 < before.fields.size) :
    ∃ first first', before.fields[0]? = some first ∧ after.fields[0]? = some first' ∧
      first.SameShape first' := by
  have hfirst := Array.getElem?_eq_getElem nonempty
  obtain ⟨first', hfirst', shape⟩ := kept 0 _ hfirst
  exact ⟨_, first', hfirst, hfirst', shape⟩

theorem model?_eq (kept : KeepsHandles before after) (nonempty : 0 < before.fields.size) :
    after.model? = before.model? := by
  obtain ⟨first, first', hfirst, hfirst', shape⟩ := kept.exists_first nonempty
  funext name
  simp only [model?, hfirst, hfirst', Option.map_some, shape.size, shape.sentinel]

theorem pointCount_eq (kept : KeepsHandles before after) (nonempty : 0 < before.fields.size) :
    after.pointCount = before.pointCount := by
  obtain ⟨first, first', hfirst, hfirst', shape⟩ := kept.exists_first nonempty
  simp only [pointCount, hfirst, hfirst', shape.size]

end KeepsHandles

structure Frame (names : List String) (before after : MemoryScope) : Prop where
  kept : ∀ (id : Nat) (field : Field), before.fields[id]? = some field →
    ∃ field', after.fields[id]? = some field' ∧ field.SameShape field' ∧
      (field.name ∉ names → field' = field)
  created : ∀ (id : Nat) (field : Field), after.fields[id]? = some field →
    before.fields[id]? = none → field.name ∈ names
  userData : after.store.userData = before.store.userData
  registry : after.registry = before.registry

namespace Frame

variable {names : List String} {before middle after : MemoryScope}

theorem refl (names : List String) (scope : MemoryScope) : Frame names scope scope where
  kept _ field hfield := ⟨field, hfield, Field.SameShape.refl field, fun _ => rfl⟩
  created _ _ hsome hnone := by simp [hnone] at hsome
  userData := rfl
  registry := rfl

theorem trans (first : Frame names before middle) (second : Frame names middle after) :
    Frame names before after where
  kept id field hfield := by
    obtain ⟨field', hfield', shape, same⟩ := first.kept id field hfield
    obtain ⟨field'', hfield'', shape', same'⟩ := second.kept id field' hfield'
    refine ⟨field'', hfield'', shape.trans shape', fun hname => ?_⟩
    have heq := same hname
    subst heq
    exact same' hname
  created id field hfield hnone := by
    cases hmiddle : middle.fields[id]? with
    | none => exact second.created id field hfield hmiddle
    | some field' =>
      have hname := first.created id field' hmiddle hnone
      obtain ⟨field'', hfield'', shape, _⟩ := second.kept id field' hmiddle
      cases hfield.symm.trans hfield''
      rwa [shape.name]
  userData := second.userData.trans first.userData
  registry := second.registry.trans first.registry

theorem mono {more : List String} (frame : Frame names before after) (h : ∀ n ∈ names, n ∈ more) :
    Frame more before after where
  kept id field hfield := by
    obtain ⟨field', hfield', shape, same⟩ := frame.kept id field hfield
    exact ⟨field', hfield', shape, fun hname => same fun hmem => hname (h _ hmem)⟩
  created id field hfield hnone := h _ (frame.created id field hfield hnone)
  userData := frame.userData
  registry := frame.registry

theorem keepsHandles (frame : Frame names before after) : KeepsHandles before after := by
  intro id field hfield
  obtain ⟨field', hfield', shape, _⟩ := frame.kept id field hfield
  exact ⟨field', hfield', shape⟩

theorem size_le (frame : Frame names before after) : before.fields.size ≤ after.fields.size :=
  frame.keepsHandles.size_le

theorem fieldId?_kept (frame : Frame names before after) (wf : after.WellFormed) {name : String}
    {id : Nat} (h : before.store.fieldId? name = some id) :
    after.store.fieldId? name = some id :=
  frame.keepsHandles.fieldId?_eq_some wf h

theorem fieldId?_eq (frame : Frame names before after) (wf : after.WellFormed) {name : String}
    (h : name ∉ names) : after.store.fieldId? name = before.store.fieldId? name := by
  cases hbefore : before.store.fieldId? name with
  | some id => exact frame.fieldId?_kept wf hbefore
  | none =>
    cases hafter : after.store.fieldId? name with
    | none => rfl
    | some id =>
      obtain ⟨field', hfield', hname⟩ := Store.fieldId?_eq_some hafter
      cases hfield : before.fields[id]? with
      | none => exact absurd (hname ▸ frame.created id field' hfield' hfield) h
      | some field =>
        obtain ⟨field'', hfield'', shape, _⟩ := frame.kept id field hfield
        cases hfield'.symm.trans hfield''
        exact absurd (shape.name.symm.trans hname) (Store.fieldId?_eq_none hbefore hfield)

theorem field?_eq (frame : Frame names before after) (wf : after.WellFormed) {name : String}
    (h : name ∉ names) : after.store.field? name = before.store.field? name := by
  simp only [Store.field?, frame.fieldId?_eq wf h]
  cases hid : before.store.fieldId? name with
  | none => rfl
  | some id =>
    obtain ⟨field, hfield, hname⟩ := Store.fieldId?_eq_some hid
    obtain ⟨field', hfield', _, same⟩ := frame.kept id field hfield
    have heq := same (hname ▸ h)
    subst heq
    exact hfield'.trans hfield.symm

theorem model?_eq (frame : Frame names before after) (nonempty : 0 < before.fields.size) :
    after.model? = before.model? :=
  frame.keepsHandles.model?_eq nonempty

theorem target?_eq (frame : Frame names before after) (wf : after.WellFormed)
    (nonempty : 0 < before.fields.size) {name : String} (h : name ∉ names) :
    after.target? name = before.target? name := by
  simp only [target?, frame.field?_eq wf h, frame.model?_eq nonempty]

end Frame

variable {scope : MemoryScope} {name : String} {old new : Field}

theorem getElem?_replace_of_some {id : Nat} {field : Field} (h : scope.fields[id]? = some field) :
    (scope.replace name new).fields[id]? =
      some (if scope.store.fieldId? name = some id then new else field) := by
  obtain ⟨hlt, _⟩ := Array.getElem?_eq_some_iff.mp h
  unfold replace
  cases hid : scope.store.fieldId? name with
  | some other =>
    simp only [fields_setFields, Array.getElem?_setIfInBounds, h, Option.some.injEq]
    by_cases heq : other = id
    · subst heq
      simp [hlt]
    · simp [heq]
  | none => simp [Array.getElem?_push, h, Nat.ne_of_lt hlt]

theorem frame_replace (wf : scope.WellFormed) (hold : scope.target? name = some old)
    (shape : old.SameShape new) : Frame [name] scope (scope.replace name new) where
  kept id field hfield := by
    refine ⟨_, getElem?_replace_of_some hfield, ?_⟩
    by_cases hid : scope.store.fieldId? name = some id
    · have hname : field.name = name := by
        obtain ⟨found, hfound, hname⟩ := Store.fieldId?_eq_some hid
        cases hfield.symm.trans hfound
        exact hname
      have hstored := wf.field?_eq_some_iff.mpr ⟨id, hfield, hname⟩
      have heq : field = old := by simpa [target?, hstored] using hold
      rw [if_pos hid, heq]
      exact ⟨shape, fun h => absurd (List.mem_singleton.mpr (heq ▸ hname)) h⟩
    · rw [if_neg hid]
      exact ⟨Field.SameShape.refl field, fun _ => rfl⟩
  created id field hfield hnone := by
    rcases getElem?_replace hfield with hsome | ⟨rfl, _⟩
    · simp [hnone] at hsome
    · exact List.mem_singleton.mpr (shape.name.trans (name_target hold))
  userData := by
    unfold replace
    split <;> rfl
  registry := by
    unfold replace
    split <;> rfl

theorem field?_replace (wf : scope.WellFormed) (hold : scope.target? name = some old)
    (shape : old.SameShape new) : (scope.replace name new).store.field? name = some new := by
  refine (wf.replace hold shape).field?_eq_some_iff.mpr ?_
  have hname : new.name = name := shape.name.trans (name_target hold)
  cases hid : scope.store.fieldId? name with
  | some id =>
    obtain ⟨field, hfield, _⟩ := Store.fieldId?_eq_some hid
    exact ⟨id, by rw [getElem?_replace_of_some hfield, if_pos hid], hname⟩
  | none =>
    refine ⟨scope.fields.size, ?_, hname⟩
    simp [replace, hid]

end FieldScript.MemoryScope
