import FieldScript.Builtin
import FieldScript.Dump
import FieldScript.Text.Blank

/-! Help entries: a function's name and description, ordered by name without regard to letter
case, and printed with the description wrapped. -/
namespace FieldScript

structure HelpEntry where
  name : String
  description : String
  deriving DecidableEq

namespace HelpEntry

/-- Most bytes of a description line; a longer word stands alone. -/
def width : Nat := 72

/-- Names are compared letter by letter without case; equal ones as they are, then by description. -/
def compare (a b : HelpEntry) : Ordering :=
  (Ord.compare (a.name.toList.map Char.toLower) (b.name.toList.map Char.toLower)).then
    ((Ord.compare a.name b.name).then (Ord.compare a.description b.description))

def le (a b : HelpEntry) : Bool := a.compare b != .gt

def wrapFrom (line : String) : List String → List String
  | [] => if line.isEmpty then [] else [line]
  | word :: rest =>
    if line.isEmpty then wrapFrom word rest
    else if line.utf8ByteSize + 1 + word.utf8ByteSize > width then line :: wrapFrom word rest
    else wrapFrom (line ++ " " ++ word) rest

def lines (entry : HelpEntry) : List String := wrapFrom "" (Text.words entry.description)

def text (entry : HelpEntry) : String :=
  entry.lines.foldl (fun out line => out ++ "    " ++ line ++ "\n") (entry.name ++ "\n")

def dump (entry : HelpEntry) : Dump :=
  .record "FunctionDef" [("name", .text entry.name), ("description", .text entry.description)]

def sort (entries : List HelpEntry) : List HelpEntry := entries.mergeSort le

def ofBuiltin (op : Builtin) : HelpEntry := ⟨op.signature, op.description⟩

end HelpEntry

def builtinHelp : List HelpEntry := HelpEntry.sort (Builtin.all.map .ofBuiltin)

end FieldScript
