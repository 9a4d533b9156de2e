import FieldScript.Field
import FieldScript.Help
import FieldScript.Tree
import FieldScript.UserData

/-! What the engine needs of a scope. Fields are reached through handles; a scope may also run
functions of its own and keep user data, but need not. -/
namespace FieldScript

class Host (σ : Type) where
  pointCount : σ → Nat
  fieldId? : σ → String → Option Nat
  field? : σ → Nat → Option Field
  /-- Replaces the field behind a handle that the scope gave out. -/
  putField : Nat → Field → σ → σ
  /-- A detached field of missing points, if the scope has a model for one. -/
  example? : σ → String → Option Field
  /-- The handle of the field with that name, made now if there is none yet. -/
  create? : σ → String → Option (Nat × σ)
  producesUserData : σ → String → Bool := fun _ _ => false
  fillField : σ → String → List Tree → Update Field Unit :=
    fun _ keyword _ => throw (.unknownFunction keyword)
  computeData : σ → String → List Tree → Except EvalError UserData :=
    fun _ keyword _ => .error (.unknownFunction keyword)
  userData? : σ → String → Option UserData := fun _ _ => none
  storeUserData : String → UserData → σ → Except EvalError σ :=
    fun name _ _ => .error (.misuse (.noUserDataStore name))
  functions : σ → List HelpEntry := fun _ => []

structure Handles where
  entries : List (String × Nat)
  deriving DecidableEq

namespace Handles

def empty : Handles := ⟨[]⟩

def get? (handles : Handles) (name : String) : Option Nat := handles.entries.lookup name

def insert (handles : Handles) (name : String) (id : Nat) : Handles :=
  ⟨(name, id) :: handles.entries.filter fun entry => entry.1 != name⟩

def size (handles : Handles) : Nat := handles.entries.length

end Handles

namespace Host

variable {σ : Type} [Host σ]

def named? (scope : σ) (name : String) : Option Field := do
  field? scope (← fieldId? scope name)

/-- The field behind a resolved name; other names are looked up now. -/
def lookup (scope : σ) (handles : Handles) (name : String) : Option Field :=
  match handles.get? name with
  | some id => field? scope id
  | none => named? scope name

def resolve (scope : σ) (names : List String) : Except EvalError Handles :=
  names.foldlM (fun handles name =>
    match fieldId? scope name with
    | some id => .ok (handles.insert name id)
    | none => .error (.unresolvedName name)) Handles.empty

def resolveOrCreate? (scope : σ) (name : String) (mayCreate : Bool) : Option (Nat × σ) :=
  match fieldId? scope name with
  | some id => some (id, scope)
  | none => if mayCreate then create? scope name else none

/-- Applies a step to the field behind a handle. What the step wrote before a failure stays. -/
def updateField {α : Type} (id : Nat) (step : Update Field α) (missing : EvalError) :
    Update σ α := fun scope =>
  match field? scope id with
  | none => .error missing scope
  | some field =>
    match step field with
    | .ok result field => .ok result (putField id field scope)
    | .error e field => .error e (putField id field scope)

end Host

end FieldScript
