import FieldScript.Grammar
import FieldScript.ParseError
import FieldScript.Source.Parens

/-! From a source text to trees. Nesting is measured on the raw text before the grammar sees it;
a text that follows the grammar is then searched for faults from left to right. -/
namespace FieldScript.Parse

def defaultMaxDepth : Nat := 500

/-- The bytes between two places, each given by the text that follows it. -/
def extentSpan (source : List Char) (extent : Parser.Extent) : Span :=
  let total := Source.byteLength source
  ⟨total - Source.byteLength extent.before, total - Source.byteLength extent.after⟩

def ofFault (source : String) : Fault → ParseError
  | .number text extent =>
    ⟨.invalidNumber text, source, extentSpan source.toList extent⟩
  | .call cause extent => ⟨.invalidCall cause, source, extentSpan source.toList extent⟩

def stuckAt (source : List Char) (record : Record) : List Char :=
  source.drop (source.length - record.furthest)

/-- An open parenthesis explains a syntax error better than the place where reading stopped. -/
def syntaxError (source : String) (record : Record) : ParseError :=
  let cs := source.toList
  let rest := stuckAt cs record
  let span := extentSpan cs ⟨rest, rest⟩
  match Source.unclosedParen cs with
  | some opened => ⟨.unclosedParen opened, source, span⟩
  | none => ⟨.unexpected record.rules rest.head?, source, span⟩

/-- Calls cannot nest deeper than there are parentheses. -/
def levels (source : List Char) : Nat := source.count '('

def read {α : Type} (parser : Nat → Parser α) (source : String) (maxDepth : Nat) :
    Except ParseError α :=
  let cs := source.toList
  match Source.tooDeep maxDepth cs with
  | some span => .error ⟨.tooDeep (maxDepth + 1) maxDepth, source, span⟩
  | none =>
    let parser := parser (levels cs)
    match parser.parse cs with
    | some (result, _) => .ok result
    | none => .error (syntaxError source (parser.run cs (.start cs.length)).2)

def checked {α : Type} (source : String) : Checked α → Except ParseError α
  | .ok a => .ok a
  | .error fault => .error (ofFault source fault)

def script (source : String) (maxDepth : Nat) : Except ParseError (List Tree) := do
  let statements ← read (fun n => Grammar.script (Grammar.value n)) source maxDepth
  checked source (statements.mapM id)

def expression (source : String) : Except ParseError Tree := do
  let tree ← read (fun n => Grammar.expression (Grammar.value n)) source defaultMaxDepth
  checked source tree

/-- Whether more text may complete the script: a parenthesis is still open. -/
def isIncomplete (source : String) : Bool :=
  match script source defaultMaxDepth with
  | .error e =>
    match e.fault with
    | .unclosedParen _ => true
    | _ => false
  | .ok _ => false

end FieldScript.Parse
