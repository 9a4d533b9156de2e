import FieldScript.Proofs.Scope.Table
import FieldScript.Proofs.Statement.Independence

/-! A scope in memory over its lifetime. Whatever is asked of it, from the empty scope on, and whether
or not it is granted, the names stay distinct and the lengths equal; the number of points is settled
by the first field, and a handle that was given out leads to the field of its name ever after. -/
namespace FieldScript

open Outcome Statement

inductive FieldWrite where
  | put (index : Nat) (value : Binary64)
  | putMissing (index : Nat)
  | fill (value : Binary64)
  | clear

namespace FieldWrite

def step : FieldWrite → Update Field Unit
  | put index value => Field.put index value
  | putMissing index => Field.putMissing index
  | fill value => modify fun field => field.fill value
  | clear => modify Field.clear

theorem keepsShape_step (write : FieldWrite) : write.step.KeepsShape := by
  cases write with
  | put index value => exact Field.keepsShape_put index value
  | putMissing index => exact Field.keepsShape_putOption index none
  | fill value => exact Update.keepsShape_modify fun field => field.sameShape_fill value
  | clear => exact Update.keepsShape_modify fun field => field.sameShape_fill field.sentinel

end FieldWrite

inductive Request where
  | addField (field : Field)
  | createField (name : String)
  | referTo (name : String) (mayCreate : Bool)
  /-- A handle may be any number; one that was not given out leads nowhere. -/
  | write (id : Nat) (write : FieldWrite)
  | setUserData (userData : UserDataStore)
  | setRegistry (registry : Registry)
  | process (maxDepth : Nat) (statement : Tree)

def Request.name? : Request → Option String
  | addField field => some field.name
  | createField name | referTo name _ => some name
  | _ => none

/-- What a scope in memory can be asked for that no statement needs. -/
class FieldStore (σ : Type) [Host σ] where
  addField : σ → Field → Except EvalError (Nat × σ)
  setUserData : σ → UserDataStore → σ
  setRegistry : σ → Registry → σ

instance : FieldStore MemoryScope where
  addField := MemoryScope.addField
  setUserData := MemoryScope.setUserData
  setRegistry scope registry := { scope with registry }

instance : FieldStore TabledScope where
  addField := TabledScope.addField
  setUserData tabled userData := { tabled with scope := tabled.scope.setUserData userData }
  setRegistry tabled registry := { tabled with scope := { tabled.scope with registry } }

namespace FieldStore

variable {σ : Type}

def granted (scope : σ) : Option (Nat × σ) → Option Nat × σ
  | some (id, after) => (some id, after)
  | none => (none, scope)

theorem granted_eq_some {scope : σ} {reply : Option (Nat × σ)} {id : Nat}
    (h : (granted scope reply).1 = some id) : reply = some (id, (granted scope reply).2) := by
  cases reply with
  | none => cases h
  | some given =>
    cases h
    rfl

theorem granted_snd {scope : σ} {reply : Option (Nat × σ)} {P : σ → Prop} (same : P scope)
    (given : ∀ id after, reply = some (id, after) → P after) : P (granted scope reply).2 := by
  cases reply with
  | none => exact same
  | some reply => exact given reply.1 reply.2 rfl

variable [Host σ] [FieldStore σ]

def perform (scope : σ) : Request → Option Nat × σ
  | .addField field => granted scope (addField scope field).toOption
  | .createField name => granted scope (Host.create? scope name)
  | .referTo name mayCreate => granted scope (Host.resolveOrCreate? scope name mayCreate)
  | .write id write => (none, (Host.updateField id write.step .outOfBounds).after scope)
  | .setUserData userData => (none, setUserData scope userData)
  | .setRegistry registry => (none, setRegistry scope registry)
  | .process maxDepth statement => (none, (process maxDepth statement).after scope)

def performAll (scope : σ) (requests : List Request) : σ :=
  requests.foldl (fun scope request => (perform scope request).2) scope

end FieldStore

open FieldStore

def MemoryScope.bare (userData : UserDataStore) (registry : Registry) : MemoryScope :=
  ⟨⟨#[], userData⟩, registry⟩

namespace TabledScope

theorem inStep_bare (userData : UserDataStore) (registry : Registry) :
    InStep ⟨.bare userData registry, .empty⟩ (.bare userData registry) where
  fields := rfl
  handles := by
    funext name
    simp [Handles.get?, Handles.empty, Store.fieldId?, MemoryScope.bare]

variable {tabled : TabledScope} {scope : MemoryScope}

theorem granted_inStep (h : InStep tabled scope) {reply : Option (Nat × TabledScope)}
    {reply' : Option (Nat × MemoryScope)} (same : Option.Rel SameReply reply reply') :
    (granted tabled reply).1 = (granted scope reply').1 ∧
      InStep (granted tabled reply).2 (granted scope reply').2 := by
  cases same with
  | none => exact ⟨rfl, h⟩
  | some given => exact ⟨congrArg some given.1, given.2⟩

theorem perform_inStep (h : InStep tabled scope) (request : Request) :
    (perform tabled request).1 = (perform scope request).1 ∧
      InStep (perform tabled request).2 (perform scope request).2 := by
  cases request with
  | addField field => exact granted_inStep h (h.addField field)
  | createField name => exact granted_inStep h (h.create? name)
  | referTo name mayCreate => exact granted_inStep h (h.resolveOrCreate? name mayCreate)
  | write id write => exact ⟨rfl, (related_updateField id write.keepsShape_step _ _ _ h).2⟩
  | setUserData userData =>
    obtain ⟨rfl, hhandles⟩ := h
    exact ⟨rfl, rfl, hhandles⟩
  | setRegistry registry =>
    obtain ⟨rfl, hhandles⟩ := h
    exact ⟨rfl, rfl, hhandles⟩
  | process maxDepth statement => exact ⟨rfl, (related_process maxDepth statement _ _ h).2⟩

theorem performAll_inStep (h : InStep tabled scope) (requests : List Request) :
    InStep (performAll tabled requests) (performAll scope requests) := by
  induction requests generalizing tabled scope with
  | nil => exact h
  | cons request rest ih => exact ih (perform_inStep h request).2

end TabledScope

namespace MemoryScope

variable {scope after : MemoryScope} {name : String} {id : Nat}

theorem install_eq {field : Field} (h : scope.install field = (id, after)) :
    after.fields[id]? = some field ∧ KeepsHandles scope after := by
  cases h
  refine ⟨by simp, fun other kept hkept => ⟨kept, ?_, Field.SameShape.refl kept⟩⟩
  have hlt := (Array.getElem?_eq_some_iff.mp hkept).1
  rw [fields_setFields, Array.getElem?_push, if_neg (by omega), hkept]

theorem create?_eq_some (wf : scope.WellFormed) (h : scope.create? name = some (id, after)) :
    after.store.fieldId? name = some id ∧ KeepsHandles scope after := by
  have wf' := wf.create h
  unfold create? at h
  split at h
  · cases h
    exact ⟨by assumption, .of_fields_eq rfl⟩
  · obtain ⟨model, hmodel, hinstall⟩ := Option.map_eq_some_iff.mp h
    obtain ⟨first, _, rfl⟩ := Option.map_eq_some_iff.mp hmodel
    obtain ⟨hfield, hkept⟩ := install_eq hinstall
    exact ⟨wf'.fieldId?_eq_some_iff.mpr ⟨_, hfield, rfl⟩, hkept⟩

theorem resolveOrCreate?_eq_some {mayCreate : Bool}
    (h : Host.resolveOrCreate? scope name mayCreate = some (id, after)) :
    scope.create? name = some (id, after) := by
  simp only [Host.resolveOrCreate?, Host.fieldId?] at h
  cases hid : scope.store.fieldId? name with
  | some other =>
    rw [hid] at h
    simpa [create?, hid] using h
  | none =>
    rw [hid] at h
    cases mayCreate with
    | true => exact h
    | false => cases h

theorem exists_addField_error_iff {field : Field} : (∃ e, scope.addField field = .error e) ↔
    (scope.store.fieldId? field.name).isSome = true ∨
      scope.fields ≠ #[] ∧ field.size ≠ scope.pointCount := by
  unfold addField
  cases htaken : (scope.store.fieldId? field.name).isSome with
  | true => simp
  | false =>
    cases hfirst : scope.fields[0]? with
    | none =>
      have hempty : scope.fields = #[] := by simpa using hfirst
      simp [hempty]
    | some first =>
      have hfields : scope.fields ≠ #[] := by
        intro hempty
        simp [hempty] at hfirst
      have hcount : scope.pointCount = first.size := by simp [pointCount, hfirst]
      by_cases hsize : first.size = field.size
      · simp [hsize, hcount]
      · simp [hsize, hfields, hcount, Ne.symm hsize]

theorem keepsHandles_putField {field written : Field} (hfield : scope.fields[id]? = some field)
    (shape : field.SameShape written) : KeepsHandles scope (Host.putField id written scope) := by
  have hfields : (Host.putField id written scope : MemoryScope).fields =
      scope.fields.setIfInBounds id written := rfl
  intro other kept hkept
  have hlt := (Array.getElem?_eq_some_iff.mp hkept).1
  rw [hfields, Array.getElem?_setIfInBounds]
  by_cases hid : id = other
  · subst hid
    cases hfield.symm.trans hkept
    exact ⟨written, by simp [hlt], shape⟩
  · exact ⟨kept, by rw [if_neg hid, hkept], Field.SameShape.refl kept⟩

theorem keepsHandles_process (wf : scope.WellFormed) (maxDepth : Nat) (statement : Tree) :
    KeepsHandles scope ((process maxDepth statement).after scope) := by
  unfold Update.after
  cases hprocess : process maxDepth statement scope with
  | error e after => exact .of_fields_eq (congrArg fields (eq_of_process_error wf hprocess))
  | ok produced after =>
    cases effect_of_process wf hprocess with
    | fields frame => exact frame.keepsHandles
    | data => exact .of_fields_eq (fields_setUserData _ _)

theorem Reachable.perform (reachable : scope.Reachable) (request : Request) :
    (perform scope request).2.Reachable := by
  cases request with
  | addField field =>
    exact granted_snd reachable fun id after h => .addField reachable (toOption_eq_some.mp h)
  | createField name =>
    exact granted_snd reachable fun id after h => .createField reachable h
  | referTo name mayCreate =>
    exact granted_snd reachable fun id after h =>
      .createField reachable (resolveOrCreate?_eq_some h)
  | write id write =>
    show ((Host.updateField id write.step .outOfBounds).after scope).Reachable
    rw [Host.after_updateField]
    cases hfield : Host.field? scope id with
    | none => exact reachable
    | some field => exact .writeField reachable hfield (write.keepsShape_step field)
  | setUserData userData => exact .setUserData reachable userData
  | setRegistry registry => exact .setRegistry reachable registry
  | process maxDepth statement => exact .process reachable maxDepth statement

theorem keepsHandles_perform (wf : scope.WellFormed) (request : Request) :
    KeepsHandles scope (perform scope request).2 := by
  have same : KeepsHandles scope scope := .of_fields_eq rfl
  cases request with
  | addField field =>
    exact granted_snd same fun id after h =>
      (install_eq (addField_eq_ok (toOption_eq_some.mp h)).2.2).2
  | createField name => exact granted_snd same fun id after h => (create?_eq_some wf h).2
  | referTo name mayCreate =>
    exact granted_snd same fun id after h => (create?_eq_some wf (resolveOrCreate?_eq_some h)).2
  | write id write =>
    show KeepsHandles scope ((Host.updateField id write.step .outOfBounds).after scope)
    rw [Host.after_updateField]
    cases hfield : Host.field? scope id with
    | none => exact same
    | some field => exact keepsHandles_putField hfield (write.keepsShape_step field)
  | setUserData userData => exact .of_fields_eq (fields_setUserData scope userData)
  | setRegistry registry => exact .of_fields_eq rfl
  | process maxDepth statement => exact keepsHandles_process wf maxDepth statement

theorem fieldId?_of_perform (wf : scope.WellFormed) {request : Request}
    (h : (perform scope request).1 = some id) : ∃ name, request.name? = some name ∧
      (perform scope request).2.store.fieldId? name = some id := by
  cases request with
  | addField field =>
    have hadded := toOption_eq_some.mp (granted_eq_some h)
    have hfield := (install_eq (addField_eq_ok hadded).2.2).1
    exact ⟨field.name, rfl, (wf.addField hadded).fieldId?_eq_some_iff.mpr ⟨field, hfield, rfl⟩⟩
  | createField name => exact ⟨name, rfl, (create?_eq_some wf (granted_eq_some h)).1⟩
  | referTo name mayCreate =>
    exact ⟨name, rfl, (create?_eq_some wf (resolveOrCreate?_eq_some (granted_eq_some h))).1⟩
  | write | setUserData | setRegistry | process => cases h

theorem perform_refused {field : Field} {e : EvalError} (h : scope.addField field = .error e) :
    perform scope (.addField field) = (none, scope) := by
  have hadd : addField scope field = .error e := h
  simp only [perform, FieldStore.addField, hadd]
  rfl

theorem Reachable.performAll (reachable : scope.Reachable) (requests : List Request) :
    (performAll scope requests).Reachable := by
  induction requests generalizing scope with
  | nil => exact reachable
  | cons request rest ih => exact ih (reachable.perform request)

theorem keepsHandles_performAll (reachable : scope.Reachable) (requests : List Request) :
    KeepsHandles scope (performAll scope requests) := by
  induction requests generalizing scope with
  | nil => exact .of_fields_eq rfl
  | cons request rest ih =>
    exact (keepsHandles_perform reachable.wellFormed request).trans (ih (reachable.perform request))

theorem field_of_given (reachable : scope.Reachable) {request : Request}
    (h : (perform scope request).1 = some id) (later : List Request) :
    ∃ field, (performAll (perform scope request).2 later).fields[id]? = some field ∧
      request.name? = some field.name := by
  obtain ⟨name, hname, hid⟩ := fieldId?_of_perform reachable.wellFormed h
  obtain ⟨field, hfield, rfl⟩ := Store.fieldId?_eq_some hid
  obtain ⟨field', hfield', shape⟩ :=
    keepsHandles_performAll (reachable.perform request) later id field hfield
  exact ⟨field', hfield', shape.name ▸ hname⟩

/-- Whatever has been asked of a scope, and whether or not it was granted: names are distinct, all
fields have as many points as the scope, which keeps its points once it has a field, a name has the
handle of the field with that name, a table of names that grows with the fields gives the same
handles, and handles that were given out stay. A field is refused exactly for its name or its length,
and the scope is then as before. -/
theorem performAll_invariant (userData : UserDataStore) (registry : Registry)
    (requests later : List Request) :
    let scope := performAll (bare userData registry) requests
    let tabled : TabledScope := performAll ⟨bare userData registry, .empty⟩ requests
    let final := performAll scope later
    (∀ (i j : Nat) (a b : Field), Host.field? scope i = some a → Host.field? scope j = some b →
      a.name = b.name → i = j) ∧
    (∀ (id : Nat) (field : Field), Host.field? scope id = some field →
      field.size = Host.pointCount scope) ∧
    (scope.fields = #[] → Host.pointCount scope = 0) ∧
    (scope.fields ≠ #[] → Host.pointCount final = Host.pointCount scope) ∧
    (∀ name id, Host.fieldId? scope name = some id ↔
      ∃ field, Host.field? scope id = some field ∧ field.name = name) ∧
    (tabled.InStep scope ∧ ∀ request, (perform tabled request).1 = (perform scope request).1) ∧
    (∀ name id, Host.fieldId? scope name = some id → Host.fieldId? final name = some id) ∧
    (∀ request id, (perform scope request).1 = some id → ∃ field,
      Host.field? (performAll (perform scope request).2 later) id = some field ∧
        request.name? = some field.name) ∧
    ∀ field, ((∃ e, addField scope field = .error e) ↔
        (Host.fieldId? scope field.name).isSome = true ∨
          scope.fields ≠ #[] ∧ field.size ≠ Host.pointCount scope) ∧
      ∀ e, addField scope field = .error e → perform scope (.addField field) = (none, scope) := by
  intro scope tabled final
  have reachable : scope.Reachable := (Reachable.start userData registry).performAll requests
  have wf := reachable.wellFormed
  have wf' : final.WellFormed := (reachable.performAll later).wellFormed
  have kept : KeepsHandles scope final := keepsHandles_performAll reachable later
  have inStep : tabled.InStep scope :=
    TabledScope.performAll_inStep (TabledScope.inStep_bare userData registry) requests
  refine ⟨wf.distinct, wf.sameSize, fun hempty => ?_, fun hfields => ?_,
    fun name id => wf.fieldId?_eq_some_iff,
    ⟨inStep, fun request => (TabledScope.perform_inStep inStep request).1⟩,
    fun name id h => kept.fieldId?_eq_some wf' h,
    fun request id h => field_of_given reachable h later,
    fun field => ⟨exists_addField_error_iff, fun e h => perform_refused h⟩⟩
  · show scope.pointCount = 0
    simp [pointCount, hempty]
  · exact kept.pointCount_eq (Array.size_pos_iff.mpr hfields)

end MemoryScope

end FieldScript
