import FieldScript.Evaluate
import FieldScript.Host

/-! Statements against a whole scope. A statement is planned first: every name is resolved and
every value computed without touching the scope. Only then are its writes made, in order. -/
namespace FieldScript

inductive Produced where
  | fields (names : List String)
  | userData (name : String)
  deriving DecidableEq

def Produced.names : Produced → List String
  | .fields names => names
  | .userData name => [name]

inductive Write where
  | fill (target : String) (value : Binary64)
  | clear (target : String)
  | values (target : String) (values : List (Option Binary64))
  | data (target : String) (data : UserData)

structure Plan where
  writes : List Write
  produced : Produced

namespace Statement

variable {σ : Type} [Host σ]

def evaluator (scope : σ) (handles : Handles) (maxDepth : Nat) : Evaluator :=
  ⟨Host.lookup scope handles, maxDepth⟩

def evaluateAll (scope : σ) (maxDepth : Nat) (tree : Tree) :
    Except EvalError (List (Option Binary64)) := do
  tree.checkPointwise
  let handles ← Host.resolve scope tree.inputs
  (evaluator scope handles maxDepth).valuesAt tree (Host.pointCount scope)

def checkOutput (scope : σ) (name : String) : Except EvalError Unit :=
  if (Host.fieldId? scope name).isSome || (Host.example? scope name).isSome then .ok ()
  else .error (.outputUnavailable name)

/-- `target = source`, where a field copied onto itself is left alone. -/
def planCopy (scope : σ) (target source : String) : Except EvalError Plan := do
  let handles ← Host.resolve scope [source]
  if source = target then pure ⟨[], .fields [target]⟩
  else
    match Host.lookup scope handles source with
    | none => .error (.unresolvedName source)
    | some field => do
      checkOutput scope target
      pure ⟨[.values target field.readings], .fields [target]⟩

/-- A variable given to a host function must name a field or stored user data. -/
def checkUserArgs (scope : σ) (args : List Tree) : Except EvalError Unit :=
  (Tree.argInputs args).forM fun name =>
    if (Host.fieldId? scope name).isSome || (Host.userData? scope name).isSome then .ok ()
    else .error (.unresolvedName name)

/-- The scratch field of a host function: the target as it is, or a new one. -/
def scratch (scope : σ) (target : String) : Except EvalError Field :=
  match Host.named? scope target with
  | some field => .ok field
  | none =>
    match Host.example? scope target with
    | some field => .ok field
    | none => .error (.outputUnavailable target)

def planUserCall (scope : σ) (target keyword : String) (args : List Tree) :
    Except EvalError Plan := do
  checkUserArgs scope args
  if Host.producesUserData scope keyword then
    let data ← Host.computeData scope keyword args
    pure ⟨[.data target data], .userData target⟩
  else
    let field ← scratch scope target
    match Host.fillField scope keyword args field with
    | .ok () field => pure ⟨[.values target field.readings], .fields [target]⟩
    | .error e _ => .error e

def planAssign (scope : σ) (maxDepth : Nat) (target : String) : Tree → Except EvalError Plan
  | .leaf (.number _ value) => .ok ⟨[.fill target value], .fields [target]⟩
  | .leaf .missing => .ok ⟨[.clear target], .fields [target]⟩
  | .leaf (.variable source) => planCopy scope target source
  | .call (.user keyword) args => planUserCall scope target keyword args
  | value => do
    checkOutput scope target
    let values ← evaluateAll scope maxDepth value
    pure ⟨[.values target values], .fields [target]⟩

/-- What the target of a branch holds before the statement: its readings, or nothing yet. -/
def seed (scope : σ) (target : String) : List (Option Binary64) :=
  match Host.named? scope target with
  | some field => field.readings
  | none => List.replicate (Host.pointCount scope) none

def seedSize (scope : σ) (target : String) : Nat :=
  match Host.named? scope target with
  | some field => field.size
  | none => Host.pointCount scope

def selected {α : Type} (branches : List α) (holds : Bool) : Option α :=
  if holds then branches[0]? else branches[1]?

def choice (scope : σ) (ev : Evaluator) (test : TestChain) (branches : List (String × Tree))
    (index : Nat) : Except EvalError (Option (String × Option Binary64)) :=
  match selected branches (test.holds (ev.readLeaf index)) with
  | none => .ok none
  | some (target, value) => do
    let result ← ev.valueAt value index
    if index < seedSize scope target then pure (some (target, result))
    else .error .outOfBounds

def overlay (target : String) :
    List (Option Binary64) → List (Option (String × Option Binary64)) → List (Option Binary64)
  | [], _ => []
  | olds, [] => olds
  | old :: olds, choice :: choices =>
    let new :=
      match choice with
      | some (name, value) => if name = target then value else old
      | none => old
    new :: overlay target olds choices

def planConditional (scope : σ) (maxDepth : Nat) (statement : Tree) (test : TestChain)
    (branches : List (String × Tree)) : Except EvalError Plan := do
  branches.forM fun (target, value) => do
    value.checkPointwise
    checkOutput scope target
  let handles ← Host.resolve scope statement.inputs
  let ev := evaluator scope handles maxDepth
  let choices ← (List.range (Host.pointCount scope)).mapM (choice scope ev test branches)
  let targets := statement.outputs
  let writes := targets.map fun target =>
    Write.values target (overlay target (seed scope target) choices)
  pure ⟨writes, .fields targets⟩

def plan (scope : σ) (maxDepth : Nat) : Tree → Except EvalError Plan
  | .assign target value => planAssign scope maxDepth target.targetName value
  | .guarded test target value =>
    planConditional scope maxDepth (.guarded test target value) test [(target.targetName, value)]
  | .branched test target value target' value' =>
    planConditional scope maxDepth (.branched test target value target' value') test
      [(target.targetName, value), (target'.targetName, value')]
  | tree => .error (.misuse (.notAssignment tree.text))

def outputField (name : String) : Update σ Nat := fun scope =>
  match Host.resolveOrCreate? scope name true with
  | some (id, scope) => .ok id scope
  | none => .error (.outputUnavailable name) scope

def updateOutput (name : String) (step : Update Field Unit) : Update σ Unit := do
  let id ← outputField name
  Host.updateField id step (.outputUnavailable name)

def Write.apply : Write → Update σ Unit
  | .fill target value => updateOutput target (modify fun field => field.fill value)
  | .clear target => updateOutput target (modify Field.clear)
  | .values target values => fun scope =>
    match Host.named? scope target with
    | some field =>
      if field.size = values.length then updateOutput target (Field.commit values) scope
      else .error (.indexOutOfRange target values.length field.size) scope
    | none => updateOutput target (Field.commit values) scope
  | .data target data => fun scope =>
    match Host.storeUserData target data scope with
    | .ok scope => .ok () scope
    | .error e => .error e scope

def commit (plan : Plan) : Update σ Produced := do
  plan.writes.forM Write.apply
  pure plan.produced

def process (maxDepth : Nat) (statement : Tree) : Update σ Produced := fun scope =>
  match plan scope maxDepth statement with
  | .ok plan => commit plan scope
  | .error e => .error e scope

end Statement

end FieldScript
