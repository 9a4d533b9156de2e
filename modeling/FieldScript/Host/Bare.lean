import FieldScript.Host

/-! The least a scope can be: fields of any lengths, a point count of its own, and no functions or
user data. It may refuse to model or to create a field. -/
namespace FieldScript

structure BareScope where
  fields : Array Field
  pointCount : Nat
  givesExample : Bool
  creates : Bool
  dataKeyword : Option String

namespace BareScope

def absentField (scope : BareScope) (name : String) : Field :=
  .absent name scope.pointCount defaultSentinel

instance : Host BareScope where
  pointCount := pointCount
  fieldId? scope name := scope.fields.findIdx? fun field => field.name == name
  field? scope id := scope.fields[id]?
  putField id field scope := { scope with fields := scope.fields.setIfInBounds id field }
  example? scope name := if scope.givesExample then some (scope.absentField name) else none
  create? scope name :=
    if scope.creates then
      some (scope.fields.size, { scope with fields := scope.fields.push (scope.absentField name) })
    else none
  producesUserData scope keyword := scope.dataKeyword == some keyword

end BareScope

end FieldScript
