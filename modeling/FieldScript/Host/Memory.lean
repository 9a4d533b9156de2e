import FieldScript.Host
import FieldScript.Registry

/-! The scope in memory. All fields have the length of the first one, which is also the model for
new fields; host functions come from a registry. -/
namespace FieldScript

structure MemoryScope where
  store : Store
  registry : Registry

namespace MemoryScope

def empty : MemoryScope := ⟨.empty, .empty⟩

def fields (scope : MemoryScope) : Array Field := scope.store.fields

def pointCount (scope : MemoryScope) : Nat :=
  match scope.fields[0]? with
  | some first => first.size
  | none => 0

def model? (scope : MemoryScope) (name : String) : Option Field :=
  scope.fields[0]?.map fun first => .absent name first.size first.sentinel

def setFields (scope : MemoryScope) (fields : Array Field) : MemoryScope :=
  { scope with store := { scope.store with fields } }

def install (scope : MemoryScope) (field : Field) : Nat × MemoryScope :=
  (scope.fields.size, scope.setFields (scope.fields.push field))

def create? (scope : MemoryScope) (name : String) : Option (Nat × MemoryScope) :=
  match scope.store.fieldId? name with
  | some id => some (id, scope)
  | none => (scope.model? name).map scope.install

def addField (scope : MemoryScope) (field : Field) : Except EvalError (Nat × MemoryScope) :=
  if (scope.store.fieldId? field.name).isSome then
    .error (.misuse (.fieldExists field.name))
  else
    match scope.fields[0]? with
    | some first =>
      if first.size = field.size then .ok (scope.install field)
      else .error (.misuse (.fieldLength field.name field.size first.size))
    | none => .ok (scope.install field)

def setUserData (scope : MemoryScope) (userData : UserDataStore) : MemoryScope :=
  { scope with store := { scope.store with userData } }

instance : Host MemoryScope where
  pointCount := pointCount
  fieldId? scope name := scope.store.fieldId? name
  field? scope id := scope.fields[id]?
  putField id field scope := scope.setFields (scope.fields.setIfInBounds id field)
  example? := model?
  create? := create?
  producesUserData scope keyword := scope.registry.producesUserData keyword
  fillField scope keyword args := scope.registry.fillField scope.store keyword args
  computeData scope keyword args := scope.registry.computeData scope.store keyword args
  userData? scope name := scope.store.userData.get? name
  storeUserData name data scope := do
    let userData ← scope.store.userData.store name data
    pure (scope.setUserData userData)
  functions scope := scope.registry.help

end MemoryScope

end FieldScript
