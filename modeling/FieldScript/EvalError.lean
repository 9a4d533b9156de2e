import FieldScript.Binary64.Text

/-! Why a statement, an evaluation or a request failed, and the wording of each cause. A missing
value is no failure: it flows through every operator. -/
namespace FieldScript

inductive ArgumentFault where
  | count (signature : String) (given : Nat)
  | noFieldName
  | windowLength (length : Binary64)
  /-- A host function works on a whole field and cannot stand inside an expression. -/
  | nested
  deriving DecidableEq

inductive Misuse where
  | variableConstant (name : String)
  | missingConstant
  | treeConstant (tree : String)
  | assignmentTarget (leaf : String)
  | statementAsValue (statement : String)
  | notAssignment (tree : String)
  | statementValue (statement : String)
  | fieldExists (name : String)
  | fieldLength (name : String) (points scope : Nat)
  | noUserDataStore (name : String)
  | ownedIntoBorrowing (name : String)
  | borrowedIntoOwning (name : String)
  deriving DecidableEq

inductive EvalError where
  | unresolvedName (name : String)
  | outputUnavailable (name : String)
  | unknownFunction (keyword : String)
  | functionFailed (keyword message : String)
  | badArguments (op : String) (fault : ArgumentFault)
  | duplicateUserData (name : String)
  | indexOutOfRange (field : String) (index length : Nat)
  | misuse (cause : Misuse)
  | stackOverflow (depth maxDepth : Nat)
  /-- A list was read past its end. -/
  | outOfBounds
  deriving DecidableEq

def ArgumentFault.message : ArgumentFault → String
  | .count signature given =>
    "expected " ++ signature ++ ", got " ++ toString given ++ " argument(s)"
  | .noFieldName => "first argument must name a field"
  | .windowLength length => "window length must be at least 1, got " ++ length.text
  | .nested => "user functions apply to a whole field and cannot be nested in an expression"

def Misuse.message : Misuse → String
  | .variableConstant name => "'" ++ name ++ "' is a variable, not a constant"
  | .missingConstant => "'missing' has no numeric value"
  | .treeConstant tree => "'" ++ tree ++ "' is not a constant"
  | .assignmentTarget leaf => "cannot assign to '" ++ leaf ++ "'"
  | .statementAsValue statement => "'" ++ statement ++ "' cannot be used as a value"
  | .notAssignment tree => "'" ++ tree ++ "' is not an assignment"
  | .statementValue statement => "statement '" ++ statement ++ "' has no value"
  | .fieldExists name => "field '" ++ name ++ "' already exists"
  | .fieldLength name points scope =>
    "field '" ++ name ++ "' has " ++ toString points ++ " points, scope has " ++ toString scope
  | .noUserDataStore name => "scope cannot store user data '" ++ name ++ "'"
  | .ownedIntoBorrowing name => "cannot store owned data '" ++ name ++ "' in a borrowing map"
  | .borrowedIntoOwning name => "cannot store borrowed data '" ++ name ++ "' in an owning map"

namespace EvalError

def message : EvalError → String
  | .unresolvedName name => "Field '" ++ name ++ "' does not exist in this scope"
  | .outputUnavailable name => "Cannot create output field '" ++ name ++ "'"
  | .unknownFunction keyword => "Unknown user function '" ++ keyword ++ "'"
  | .functionFailed keyword message => "User function '" ++ keyword ++ "' failed: " ++ message
  | .badArguments op fault => "Bad arguments to '" ++ op ++ "': " ++ fault.message
  | .duplicateUserData name => "User data '" ++ name ++ "' is already stored"
  | .indexOutOfRange field index length =>
    "Index " ++ toString index ++ " out of range for field '" ++ field ++ "' (length " ++
      toString length ++ ")"
  | .misuse cause => "Invalid request: " ++ cause.message
  | .stackOverflow depth maxDepth =>
    "Evaluation nesting depth " ++ toString depth ++ " exceeds maximum of " ++ toString maxDepth
  | .outOfBounds => "read past the end of a list"

/-- Running out of depth stops a whole run; every other failure concerns one statement. -/
def isResourceExceeded : EvalError → Bool
  | .stackOverflow _ _ => true
  | _ => false

end EvalError

end FieldScript
