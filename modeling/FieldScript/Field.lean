import FieldScript.EvalError

/-! A named array of values with a sentinel of its own. A point that holds the sentinel reads as
missing, so writing the sentinel and writing "missing" are the same thing. -/
namespace FieldScript

/-- A step that may fail and keeps the state it had reached. -/
abbrev Update (σ α : Type) := EStateM EvalError σ α

def Update.ofExcept {σ α : Type} : Except EvalError α → Update σ α
  | .ok a => pure a
  | .error e => throw e

structure Field where
  name : String
  values : Array Binary64
  sentinel : Binary64
  deriving DecidableEq

def defaultSentinel : Binary64 := ⟨0xC0C3878000000000⟩

namespace Field

def size (field : Field) : Nat := field.values.size

def isSentinel (field : Field) (value : Binary64) : Bool :=
  value.same field.sentinel || (value.isNaN && field.sentinel.isNaN)

def ofOptions (name : String) (values : List (Option Binary64)) (sentinel : Binary64) : Field :=
  ⟨name, (values.map fun v => v.getD sentinel).toArray, sentinel⟩

def absent (name : String) (size : Nat) (sentinel : Binary64) : Field :=
  ⟨name, Array.replicate size sentinel, sentinel⟩

/-- Nothing outside the field and at missing points. -/
def read (field : Field) (index : Nat) : Option Binary64 :=
  match field.values[index]? with
  | some value => if field.isSentinel value then none else some value
  | none => none

def readings (field : Field) : List (Option Binary64) := (List.range field.size).map field.read

def fill (field : Field) (value : Binary64) : Field :=
  { field with values := field.values.map fun _ => value }

def clear (field : Field) : Field := field.fill field.sentinel

def put (index : Nat) (value : Binary64) : Update Field Unit := fun field =>
  if index < field.size then
    .ok () { field with values := field.values.setIfInBounds index value }
  else .error (.indexOutOfRange field.name index field.size) field

def putMissing (index : Nat) : Update Field Unit := fun field => put index field.sentinel field

def putOption (index : Nat) : Option Binary64 → Update Field Unit
  | some value => put index value
  | none => putMissing index

def withMissing (field : Field) (index : Nat) : Field :=
  match putMissing index field with
  | .ok () field | .error _ field => field

/-- One point after the other made missing, for a field that knows no faster way. -/
def clearEach (field : Field) : Field := (List.range field.size).foldl withMissing field

/-- Writes the readings to the points from `index` on, until one lies outside. -/
def commitFrom (index : Nat) : List (Option Binary64) → Update Field Unit
  | [] => pure ()
  | value :: rest => do
    putOption index value
    commitFrom (index + 1) rest

def commit (values : List (Option Binary64)) : Update Field Unit := commitFrom 0 values

def joinTexts : List String → String
  | [] => ""
  | [item] => item
  | item :: rest => item ++ ", " ++ joinTexts rest

def readingText : Option Binary64 → String
  | some value => value.text
  | none => "missing"

def line (field : Field) : String :=
  field.name ++ " [" ++ joinTexts (field.readings.map readingText) ++ "]\n"

end Field

end FieldScript
