import FieldScript.Diagnostic
import FieldScript.EvalError
import FieldScript.Grammar.Rule

/-! Why a text is no script, and where. -/
namespace FieldScript

inductive ParseFault where
  | unexpected (expected : List Rule) (found : Option Char)
  /-- A syntax error in a text that leaves a parenthesis open. -/
  | unclosedParen (opened : Span)
  | invalidNumber (text : String)
  | tooDeep (depth limit : Nat)
  | invalidCall (cause : EvalError)
  deriving DecidableEq

structure ParseError where
  fault : ParseFault
  source : String
  span : Span
  deriving DecidableEq

namespace ParseFault

def foundText : Option Char → String
  | some c => "'" ++ c.toString ++ "'"
  | none => "end of input"

def message : ParseFault → String
  | .unexpected expected found =>
    "Expected " ++ Rule.alternatives (Rule.concepts expected) ++ ", found " ++ foundText found
  | .unclosedParen _ => "Unclosed delimiter '('"
  | .invalidNumber text => "Invalid number literal '" ++ text ++ "'"
  | .tooDeep depth limit =>
    "Nesting depth " ++ toString depth ++ " exceeds maximum of " ++ toString limit ++ " levels"
  | .invalidCall cause => cause.message

def code : ParseFault → String
  | .unexpected _ _ => "P001"
  | .unclosedParen _ => "P002"
  | .invalidNumber _ => "P003"
  | .tooDeep _ _ => "P004"
  | .invalidCall _ => "P005"

def help : ParseFault → List String
  | .unexpected _ _ => []
  | .unclosedParen _ => ["Add the missing closing delimiter"]
  | .invalidNumber _ => ["Check the number format"]
  | .tooDeep _ _ => ["Reduce nesting or split the statement"]
  | .invalidCall _ => ["Run with --list-functions to see built-in signatures"]

def related : ParseFault → List (Span × String)
  | .unclosedParen opened => [(opened, "'(' opened here")]
  | _ => []

end ParseFault

namespace ParseError

def diagnostic (e : ParseError) : Diagnostic :=
  ⟨e.fault.message, e.span, e.fault.code, e.fault.help, e.fault.related⟩

def message (e : ParseError) : String :=
  e.fault.help.foldl (fun out help => out ++ "\nhelp: " ++ help)
    ("error: " ++ e.fault.message ++ " [" ++ e.fault.code ++ "]")

end ParseError

end FieldScript
