import FieldScript.CommandLine

/-! The command itself: reads its file or standard input and prints what the run says. -/
namespace FieldScript.CommandLine

def readScript? (path : Option String) : IO (Option String) := do
  match path with
  | none => return none
  | some path =>
    try
      return some (← IO.FS.readFile path)
    catch _ => return none

def printSaid : Said → IO Unit
  | .out text => IO.print text
  | .err text => IO.eprint text

def Request.path? : Request → Option String
  | .help => none
  | .run inv => inv.file

def Request.readsInput : Request → Bool
  | .help => false
  | .run inv => !inv.listFunctions && inv.file.isNone && inv.script.isNone

def runMain (args : List String) : IO UInt32 := do
  match Request.ofArgs? args with
  | none =>
    IO.eprintln "error: the arguments were not understood"
    return 2
  | some request =>
    let fileText ← readScript? request.path?
    let input ← if request.readsInput then (← IO.getStdin).readToEnd else pure ""
    let outcome := execute request fileText input
    outcome.said.forM printSaid
    return UInt32.ofNat outcome.exit

end FieldScript.CommandLine

def main (args : List String) : IO UInt32 := FieldScript.CommandLine.runMain args
