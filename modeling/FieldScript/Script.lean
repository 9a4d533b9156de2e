import FieldScript.Help
import FieldScript.Parse
import FieldScript.Statement

/-! Scripts: statements compiled once and run against any scope. A failing statement leaves the
others alone, unless the options say to stop; running out of depth always stops. -/
namespace FieldScript

structure RunOptions where
  maxDepth : Nat
  stopOnError : Bool
  deriving DecidableEq

def RunOptions.default : RunOptions := ⟨1000, false⟩

inductive EngineError where
  | api (message : String)
  | compilation (diagnostics : List Diagnostic) (source : String)
  | runtime (message : String)
  | resourceExceeded (message : String)
  deriving DecidableEq

namespace EngineError

def message : EngineError → String
  | .api message => "API error: " ++ message
  | .compilation diagnostics _ =>
    "Compilation failed with " ++ toString diagnostics.length ++ " error(s)"
  | .runtime message => "Runtime error: " ++ message
  | .resourceExceeded message => "Resource limit exceeded: " ++ message

def ofParse (e : ParseError) : EngineError := .compilation [e.diagnostic] e.source

def ofEval (e : EvalError) : EngineError :=
  if e.isResourceExceeded then .resourceExceeded e.message else .runtime e.message

end EngineError

structure Script where
  statements : List Tree
  options : RunOptions

namespace Script

def ofStatements (statements : List Tree) (options : RunOptions) : Except EngineError Script :=
  match statements.find? fun tree => !tree.isStatement with
  | some tree => .error (.api ("'" ++ tree.text ++ "' is not a statement"))
  | none => .ok ⟨statements, options⟩

def text (script : Script) : String :=
  script.statements.foldl (fun out tree => out ++ tree.text ++ ";\n") ""

/-- The names read before any statement writes them, given the names written and read so far. -/
def inputsFrom (written found : List String) : List Tree → List String
  | [] => found
  | tree :: rest =>
    let found := (tree.inputs.filter fun name => !written.contains name).foldl mention found
    inputsFrom (tree.outputs.foldl mention written) found rest

def inputs (script : Script) : List String := inputsFrom [] [] script.statements

def outputs (script : Script) : List String :=
  (script.statements.flatMap Tree.outputs).foldl mention []

structure Entry where
  statement : Tree
  outcome : Except EvalError Produced

structure Report where
  entries : List Entry
  /-- Statements were left out after a failure. -/
  stoppedEarly : Bool

variable {σ : Type} [Host σ]

def runStatements (options : RunOptions) : List Tree → σ → Report × σ
  | [], scope => (⟨[], false⟩, scope)
  | statement :: rest, scope =>
    match Statement.process options.maxDepth statement scope with
    | .ok produced scope =>
      let (report, scope) := runStatements options rest scope
      (⟨⟨statement, .ok produced⟩ :: report.entries, report.stoppedEarly⟩, scope)
    | .error e scope =>
      if e.isResourceExceeded || options.stopOnError then
        (⟨[⟨statement, .error e⟩], !rest.isEmpty⟩, scope)
      else
        let (report, scope) := runStatements options rest scope
        (⟨⟨statement, .error e⟩ :: report.entries, report.stoppedEarly⟩, scope)

def runWith (script : Script) (options : RunOptions) (scope : σ) : Report × σ :=
  runStatements options script.statements scope

def run (script : Script) (scope : σ) : Report × σ := script.runWith script.options scope

namespace Report

def isSuccess (report : Report) : Bool :=
  !report.stoppedEarly && report.entries.all fun entry => entry.outcome.isOk

def failures (report : Report) : List (Tree × EvalError) :=
  report.entries.filterMap fun entry =>
    match entry.outcome with
    | .error e => some (entry.statement, e)
    | .ok _ => none

def produced (report : Report) : List String :=
  report.entries.flatMap fun entry =>
    match entry.outcome with
    | .ok produced => produced.names
    | .error _ => []

def result (report : Report) : Except EngineError (List Produced) :=
  report.entries.mapM fun entry =>
    match entry.outcome with
    | .ok produced => .ok produced
    | .error e => .error (.ofEval e)

end Report

end Script

structure Engine where
  parseMaxDepth : Nat
  runOptions : RunOptions

namespace Engine

def default : Engine := ⟨Parse.defaultMaxDepth, .default⟩

def compileWith (engine : Engine) (parseMaxDepth : Nat) (source : String) :
    Except EngineError Script :=
  match Parse.script source parseMaxDepth with
  | .error e => .error (.ofParse e)
  | .ok statements => Script.ofStatements statements engine.runOptions

def compile (engine : Engine) (source : String) : Except EngineError Script :=
  engine.compileWith engine.parseMaxDepth source

def compileExpression (source : String) : Except EngineError Tree :=
  match Parse.expression source with
  | .error e => .error (.ofParse e)
  | .ok tree =>
    if tree.isStatement then
      .error (.api ("'" ++ tree.text ++ "' is a statement, not an expression"))
    else .ok tree

end Engine

end FieldScript
