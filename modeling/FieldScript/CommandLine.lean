import FieldScript.Host.Memory
import FieldScript.Render
import FieldScript.Tree.Dump

/-! The command: fields given as options, a script given as an argument, in a file or line by line
on standard input. All it says is collected in order; the scope lives on from line to line. -/
namespace FieldScript

namespace CommandLine

structure Invocation where
  fields : List String
  missing : Option Binary64
  file : Option String
  stopOnError : Bool
  listFunctions : Bool
  debugParse : Bool
  script : Option String

def Invocation.empty : Invocation := ⟨[], none, none, false, false, false, none⟩

inductive Request where
  | help
  | run (inv : Invocation)

/-- Digits, at most one point after the first of them, at most one exponent mark with something
after it: what may follow a minus in a number given as a value. -/
def looksNumeric (pointSeen : Bool) (markSeen : Bool) (first : Bool) : List Char → Bool
  | [] => true
  | c :: cs =>
    if c.isDigit then looksNumeric pointSeen markSeen false cs
    else if c = '.' && !pointSeen && !markSeen && !first then looksNumeric true markSeen false cs
    else if (c = 'e' || c = 'E') && !markSeen && !first && !cs.isEmpty then
      looksNumeric pointSeen true false cs
    else false

def isValue (mayBeNegative : Bool) (arg : String) : Bool :=
  match arg.toList with
  | '-' :: rest => rest.isEmpty || (mayBeNegative && looksNumeric false false true rest)
  | _ => true

inductive ValueOption where
  | field
  | missing
  | file

/-- Every option may be given once, but fields any number of times. A path is never empty. -/
def setValue (inv : Invocation) (value : String) : ValueOption → Option Invocation
  | .field => some { inv with fields := inv.fields ++ [value] }
  | .missing =>
    if inv.missing.isSome then none
    else (Binary64.ofText? value).map fun x => { inv with missing := some x }
  | .file =>
    if inv.file.isSome || value.isEmpty then none else some { inv with file := some value }

def setFlag (inv : Invocation) (flag : String) : Option Invocation :=
  if flag = "--stop-on-error" && !inv.stopOnError then some { inv with stopOnError := true }
  else if flag = "--list-functions" && !inv.listFunctions then
    some { inv with listFunctions := true }
  else if flag = "--debug-parse" && !inv.debugParse then some { inv with debugParse := true }
  else none

def setScript (inv : Invocation) (script : String) : Option Invocation :=
  if inv.script.isSome then none else some { inv with script := some script }

def valueOptions : List (String × ValueOption) :=
  [("--field", .field), ("--missing", .missing), ("--file", .file), ("-f", .field)]

/-- An option with its value in the same argument: `--name=value`, `-fvalue` or `-f=value`. -/
def attachedValue? (arg : String) : Option (ValueOption × String) :=
  match arg.toList with
  | '-' :: 'f' :: '=' :: value => some (.field, String.ofList value)
  | '-' :: 'f' :: c :: value => some (.field, String.ofList (c :: value))
  | '-' :: '-' :: rest =>
    match rest.dropWhile (· != '=') with
    | '=' :: value =>
      let name := String.ofList ('-' :: '-' :: rest.takeWhile (· != '='))
      (valueOptions.lookup name).map fun option => (option, String.ofList value)
    | _ => none
  | _ => none

def mayBeNegative : ValueOption → Bool
  | .missing => true
  | _ => false

/-- Also short options written together, of which the first decides. -/
def asksForHelp (arg : String) : Bool :=
  match arg.toList with
  | '-' :: 'h' :: _ => true
  | _ => arg == "--help"

def Invocation.request? (inv : Invocation) : Option Request :=
  if inv.file.isSome && inv.script.isSome then none else some (.run inv)

/-- Reads from left to right; help is given as soon as it is asked for. -/
def readArgs (inv : Invocation) : List String → Option Request
  | [] => inv.request?
  | "--" :: scripts => do (← scripts.foldlM setScript inv).request?
  | arg :: rest =>
    if isValue false arg then do readArgs (← setScript inv arg) rest
    else if asksForHelp arg then some .help
    else
      match valueOptions.lookup arg with
      | some option =>
        match rest with
        | [] => none
        | value :: rest =>
          if isValue (mayBeNegative option) value then do
            readArgs (← setValue inv value option) rest
          else none
      | none =>
        match attachedValue? arg with
        | some (option, value) => do readArgs (← setValue inv value option) rest
        | none => do readArgs (← setFlag inv arg) rest

def Request.ofArgs? (args : List String) : Option Request := readArgs .empty args

inductive SetupError where
  | fieldShape (argument : String)
  | fieldValue (field value : String)
  | scope (cause : EvalError)
  | unreadable (path : String)

namespace SetupError

def message : SetupError → String
  | .fieldShape argument => "invalid field '" ++ argument ++ "'"
  | .fieldValue field value => "invalid value '" ++ value ++ "' in field '" ++ field ++ "'"
  | .scope cause => "cannot add field: " ++ cause.message
  | .unreadable path => "cannot read script '" ++ path ++ "'"

end SetupError

def splitAll (separator : Char) : List Char → List (List Char)
  | [] => [[]]
  | c :: cs =>
    if c = separator then [] :: splitAll separator cs
    else
      match splitAll separator cs with
      | piece :: rest => (c :: piece) :: rest
      | [] => [[c]]

/-- A point: nothing or the word `missing` is the sentinel, else a number. -/
def readPoint (field : String) (missing : Binary64) (text : List Char) :
    Except SetupError Binary64 :=
  let value := String.ofList (Text.trimChars text)
  if value = "" || value = "missing" then .ok missing
  else
    match Binary64.ofText? value with
    | some x => .ok x
    | none => .error (.fieldValue field value)

def readField (missing : Binary64) (argument : String) : Except SetupError Field :=
  let cs := argument.toList
  let name := String.ofList (Text.trimChars (cs.takeWhile (· != '=')))
  match cs.dropWhile (· != '=') with
  | '=' :: points =>
    if name = "" then .error (.fieldShape argument)
    else do
      let values ← (splitAll ',' points).mapM (readPoint name missing)
      pure ⟨name, values.toArray, missing⟩
  | _ => .error (.fieldShape argument)

def buildScope (inv : Invocation) : Except SetupError MemoryScope :=
  inv.fields.foldlM (fun scope argument => do
    let field ← readField (inv.missing.getD defaultSentinel) argument
    match scope.addField field with
    | .ok (_, scope) => pure scope
    | .error e => .error (.scope e)) MemoryScope.empty

def usage : String := String.join [
  "Run radmath scripts against fields given on the command line\n\n",
  "Usage: radmath [OPTIONS] [SCRIPT]\n\n",
  "Arguments:\n",
  "  [SCRIPT]  Script to run (if not provided, reads from stdin)\n\n",
  "Options:\n",
  "  -f, --field <NAME=VALUES>  ",
  "Input field as NAME=v1,v2,... (use `missing` for a missing point)\n",
  "      --missing <MISSING>    ",
  "Sentinel value that marks missing points [default: -9999]\n",
  "      --file <PATH>          Read the script from a file\n",
  "      --stop-on-error        Stop at the first failing statement\n",
  "      --list-functions       List the built-in functions and exit\n",
  "      --debug-parse          Print the parsed statements (for debugging)\n",
  "  -h, --help                 Print help\n"]

inductive Said where
  | out (text : String)
  | err (text : String)

def Invocation.engine (inv : Invocation) : Engine :=
  { Engine.default with runOptions := { RunOptions.default with stopOnError := inv.stopOnError } }

def functionList : List Said := builtinHelp.map fun entry => .out (entry.text ++ "\n")

def dumpText (statements : List Tree) : String :=
  statements.foldl (fun out tree => out ++ tree.dump.block 0 ++ "\n") "=== Parsed statements ===\n"
    ++ "\n"

def producedText (scope : MemoryScope) (name : String) : List Said :=
  match scope.store.field? name with
  | some field => [.out field.line]
  | none =>
    match scope.store.userData.get? name with
    | some data => [.out (name ++ " " ++ data.debugText ++ "\n")]
    | none => []

def reportText (report : Script.Report) (scope : MemoryScope) : List Said :=
  let failures := report.failures.map fun (statement, e) =>
    Said.err ("error: " ++ statement.text ++ ": " ++ e.message ++ "\n")
  let stopped :=
    if report.stoppedEarly then
      [Said.err ("stopped after " ++ toString report.entries.length ++ " statement(s)\n")]
    else []
  failures ++ stopped ++ report.produced.flatMap (producedText scope)

def interpret (engine : Engine) (scope : MemoryScope) (source : String) :
    List Said × MemoryScope :=
  match engine.compile source with
  | .error e => ([.err (Render.text e)], scope)
  | .ok script =>
    let (report, scope) := script.run scope
    (reportText report scope, scope)

def interpretShown (engine : Engine) (scope : MemoryScope) (source : String) :
    List Said × MemoryScope :=
  match Parse.script source Parse.defaultMaxDepth with
  | .error e => ([.err (Render.text (.ofParse e))], scope)
  | .ok statements =>
    let (said, scope) := interpret engine scope source
    (.out (dumpText statements) :: said, scope)

def feed (inv : Invocation) (scope : MemoryScope) (source : String) : List Said × MemoryScope :=
  if inv.debugParse then interpretShown inv.engine scope source
  else interpret inv.engine scope source

def feedAll (inv : Invocation) (scope : MemoryScope) : List String → List Said × MemoryScope
  | [] => ([], scope)
  | source :: rest =>
    let (said, scope) := feed inv scope source
    let (later, scope) := feedAll inv scope rest
    (said ++ later, scope)

/-- The lines of an input. A carriage return before a line feed belongs to the line end; the last
line may stand without one. -/
def linesOf : List (List Char) → List (List Char)
  | [] => []
  | [last] => if last.isEmpty then [] else [last]
  | line :: rest => (if line.getLast? = some '\r' then line.dropLast else line) :: linesOf rest

def inputLines (input : String) : List String :=
  (linesOf (splitAll '\n' input.toList)).map String.ofList

structure Outcome where
  exit : Nat
  said : List Said

def run (inv : Invocation) (fileText : Option String) (input : String) : Outcome :=
  if inv.listFunctions then ⟨0, functionList⟩
  else
    match buildScope inv with
    | .error e => ⟨1, [.err ("Error: " ++ e.message ++ "\n")]⟩
    | .ok scope =>
      match inv.file, fileText with
      | some _, some source => ⟨0, (feed inv scope source).1⟩
      | some path, none => ⟨1, [.err ("Error: " ++ (SetupError.unreadable path).message ++ "\n")]⟩
      | none, _ =>
        match inv.script with
        | some source => ⟨0, (feed inv scope source).1⟩
        | none => ⟨0, (feedAll inv scope (inputLines input)).1⟩

def execute (request : Request) (fileText : Option String) (input : String) : Outcome :=
  match request with
  | .help => ⟨0, [.out usage]⟩
  | .run inv => run inv fileText input

end CommandLine

end FieldScript
