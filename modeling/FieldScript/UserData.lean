import FieldScript.Dump
import FieldScript.EvalError

/-! Results of host functions that are no fields: one object for a whole scope, kept by name. A
store either owns its entries or borrows them all, and a name is bound at most once. -/
namespace FieldScript

inductive UserData where
  | table (values : List Binary64)
  | text (content : String)
  deriving DecidableEq

namespace UserData

def asFloat? : UserData → Option Binary64
  | .table values => some (Binary64.sum Binary64.zero values)
  | .text _ => none

def dump : UserData → Dump
  | .table values => .call "Table" [.list (values.map fun v => .atom v.debugText)]
  | .text content => .call "Opaque" [.text content]

def debugText (data : UserData) : String := data.dump.inline

def push (data : UserData) (value : Binary64) : UserData :=
  match data with
  | .table values => .table (values ++ [value])
  | .text content => .text content

end UserData

inductive Ownership where
  | owning
  | borrowing
  deriving DecidableEq

structure UserDataStore where
  ownership : Ownership
  entries : List (String × UserData)
  deriving DecidableEq

namespace UserDataStore

def empty (ownership : Ownership) : UserDataStore := ⟨ownership, []⟩

def get? (store : UserDataStore) (name : String) : Option UserData := store.entries.lookup name

def contains (store : UserDataStore) (name : String) : Bool := (store.get? name).isSome

def size (store : UserDataStore) : Nat := store.entries.length

def names (store : UserDataStore) : List String :=
  (store.entries.map (·.1)).mergeSort fun a b => decide (a ≤ b)

def bind (store : UserDataStore) (name : String) (data : UserData) :
    Except EvalError UserDataStore :=
  if store.contains name then .error (.duplicateUserData name)
  else .ok { store with entries := store.entries ++ [(name, data)] }

/-- The wrong kind of store is reported before a taken name. -/
def store (store : UserDataStore) (name : String) (data : UserData) :
    Except EvalError UserDataStore :=
  match store.ownership with
  | .owning => store.bind name data
  | .borrowing => .error (.misuse (.ownedIntoBorrowing name))

def storeBorrowed (store : UserDataStore) (name : String) (data : UserData) :
    Except EvalError UserDataStore :=
  match store.ownership with
  | .borrowing => store.bind name data
  | .owning => .error (.misuse (.borrowedIntoOwning name))

/-- Only an owning store lets its entries be changed. -/
def modify? (store : UserDataStore) (name : String) (f : UserData → UserData) :
    Option UserDataStore :=
  match store.ownership with
  | .borrowing => none
  | .owning =>
    if store.contains name then
      some { store with
        entries := store.entries.map fun entry =>
          if entry.1 = name then (entry.1, f entry.2) else entry }
    else none

def clear (store : UserDataStore) : UserDataStore := { store with entries := [] }

end UserDataStore

end FieldScript
