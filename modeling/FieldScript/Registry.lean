import FieldScript.Field.Shape
import FieldScript.Help
import FieldScript.Tree
import FieldScript.UserData

/-! Host functions by keyword. A function fills a field or computes user data; it sees the stored
fields and user data but cannot change them. Registering a keyword again replaces its function. -/
namespace FieldScript

structure Store where
  fields : Array Field
  userData : UserDataStore

namespace Store

def empty : Store := ⟨#[], .empty .owning⟩

def fieldId? (store : Store) (name : String) : Option Nat :=
  store.fields.findIdx? fun field => field.name == name

def field? (store : Store) (name : String) : Option Field := do
  store.fields[← store.fieldId? name]?

end Store

/-- Writes into a scratch field; what it wrote counts only if it succeeds. Only the values are
its to change. -/
structure FieldFunction where
  run : Store → List Tree → Update Field Unit
  keepsShape : ∀ store args, (run store args).KeepsShape

def FieldFunction.filling (value : Binary64) : FieldFunction where
  run _ _ := modify fun field => field.fill value
  keepsShape _ _ := Update.keepsShape_modify fun field => field.sameShape_fill value

inductive HostFunction where
  | field (function : FieldFunction)
  | data (run : Store → List Tree → Except EvalError UserData)

structure Registration where
  help : HelpEntry
  function : HostFunction

/-- One registration per keyword, in help order. -/
structure Registry where
  entries : List Registration

namespace Registry

def empty : Registry := ⟨[]⟩

def register (registry : Registry) (help : HelpEntry) (function : HostFunction) : Registry :=
  let kept := registry.entries.filter fun entry => entry.help.name != help.name
  let all : List Registration := kept ++ [⟨help, function⟩]
  ⟨all.mergeSort fun a b => a.help.le b.help⟩

def find? (registry : Registry) (keyword : String) : Option HostFunction :=
  (registry.entries.find? fun entry => entry.help.name == keyword).map (·.function)

def contains (registry : Registry) (keyword : String) : Bool := (registry.find? keyword).isSome

def producesUserData (registry : Registry) (keyword : String) : Bool :=
  match registry.find? keyword with
  | some (.data _) => true
  | _ => false

def help (registry : Registry) : List HelpEntry := registry.entries.map (·.help)

def fillField (registry : Registry) (store : Store) (keyword : String) (args : List Tree) :
    Update Field Unit :=
  match registry.find? keyword with
  | some (.field function) => function.run store args
  | _ => throw (.unknownFunction keyword)

def computeData (registry : Registry) (store : Store) (keyword : String) (args : List Tree) :
    Except EvalError UserData :=
  match registry.find? keyword with
  | some (.data run) => run store args
  | _ => .error (.unknownFunction keyword)

def debugText (registry : Registry) : String :=
  (Dump.openRecord "UserFunctions" [("defs", .list (registry.help.map HelpEntry.dump))]).inline

end Registry

end FieldScript
