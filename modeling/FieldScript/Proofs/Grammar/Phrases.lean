import FieldScript.Grammar

/-! The grammar once more, by itself. Its rules build nothing: each that matches leaves a phrase, which
says where it matched and holds the phrases of the rules inside it. Rules without a name leave the
phrases of their parts. -/
namespace FieldScript

open FieldScript.Parser

inductive Phrase where
  | mk (rule : Rule) (extent : Extent) (inside : List Phrase)

namespace Phrase

def rule : Phrase → Rule
  | mk rule _ _ => rule

def extent : Phrase → Extent
  | mk _ extent _ => extent

def inside : Phrase → List Phrase
  | mk _ _ inside => inside

def text (phrase : Phrase) : String :=
  let ended := phrase.extent.before.length - phrase.extent.after.length
  String.ofList (phrase.extent.before.take ended)

end Phrase

namespace Phrases

def phrase (rule : Rule) (parts : Parser (List Phrase)) : Parser (List Phrase) := do
  let (inside, extent) ← located (named rule parts)
  return [.mk rule extent inside]

def atom {α : Type} (rule : Rule) (p : Parser α) : Parser (List Phrase) :=
  phrase rule do
    let _ ← p
    return []

def name : Parser (List Phrase) := atom .name (lexeme Source.name?)

def number : Parser (List Phrase) := atom .number (lexeme Source.number?)

def keyword (rule : Rule) (spelled : String) : Parser (List Phrase) :=
  atom rule (token (Source.exactly? spelled))

def operand : Parser (List Phrase) := number <|> keyword .missing "missing" <|> name

def sign (rule : Rule) (text : String) : Parser (List Phrase) := atom rule (symbol text)

def arithOp : Parser (List Phrase) :=
  sign .add "+" <|> sign .sub "-" <|> sign .mul "*" <|> sign .div "/"

def comparison : Parser (List Phrase) :=
  sign .le "<=" <|> sign .ge ">=" <|> sign .eq "==" <|> sign .ne "!=" <|> sign .lt "<" <|>
    sign .gt ">"

def boolWord (rule : Rule) (text spelled : String) : Parser (List Phrase) :=
  atom rule (symbol text <|> token (Source.ignoringCase? spelled))

def boolOp : Parser (List Phrase) := boolWord .and "&&" "and" <|> boolWord .or "||" "or"

def step (op part : Parser (List Phrase)) : Parser (List Phrase) := do
  skip
  let op ← op
  skip
  let part ← part
  return op ++ part

def arith : Parser (List Phrase) := phrase .arith do
  let first ← operand
  let rest ← oneOrMore (step arithOp operand)
  return first ++ rest.flatten

def test : Parser (List Phrase) := phrase .test do
  let left ← operand
  skip
  let op ← comparison
  skip
  let right ← operand
  return left ++ op ++ right

def tests : Parser (List Phrase) := phrase .tests do
  let first ← test
  let rest ← many (step boolOp test)
  return first ++ rest.flatten

def argStep (value : Parser (List Phrase)) : Parser (List Phrase) := do
  skip
  symbol ","
  skip
  value

def arguments (value : Parser (List Phrase)) : Parser (List Phrase) := do
  let first ← value
  let rest ← many (argStep value)
  return first ++ rest.flatten

def callParts (value : Parser (List Phrase)) : Parser (List Phrase) := do
  let keyword ← name
  skip
  symbol "("
  skip
  let args ← optional (arguments value)
  skip
  symbol ")"
  return keyword ++ args.getD []

def call (value : Parser (List Phrase)) : Parser (List Phrase) := phrase .call (callParts value)

def valueOver (inner : Parser (List Phrase)) : Parser (List Phrase) :=
  call inner <|> tests <|> arith <|> operand

def value : Nat → Parser (List Phrase)
  | 0 => valueOver fail
  | levels + 1 => valueOver (value levels)

def assignment (value : Parser (List Phrase)) : Parser (List Phrase) := phrase .assignment do
  let target ← name
  skip
  symbol "="
  skip
  let value ← value
  return target ++ value

def elseBranch (value : Parser (List Phrase)) : Parser (List Phrase) := do
  skip
  let word ← keyword .elseWord "else"
  skip
  let branch ← assignment value
  return word ++ branch

def conditional (value : Parser (List Phrase)) : Parser (List Phrase) := phrase .conditional do
  let ifWord ← keyword .ifWord "if"
  skip
  symbol "("
  skip
  let test ← tests
  skip
  symbol ")"
  skip
  let thenWord ← keyword .thenWord "then"
  skip
  let branch ← assignment value
  let other ← optional (elseBranch value)
  return ifWord ++ test ++ thenWord ++ branch ++ other.getD []

def statement (value : Parser (List Phrase)) : Parser (List Phrase) :=
  phrase .statement (conditional value <|> assignment value)

def nextStatement (value : Parser (List Phrase)) : Parser (List Phrase) := do
  let _ ← oneOrMore Grammar.semicolon
  skip
  statement value

def statements (value : Parser (List Phrase)) : Parser (List Phrase) := do
  skip
  let first ← statement value
  let rest ← many (nextStatement value)
  let _ ← many Grammar.semicolon
  return first ++ rest.flatten

def endOfInput : Parser (List Phrase) := atom .endOfInput (token Source.end?)

/-- The end of the input leaves a phrase too. -/
def script (value : Parser (List Phrase)) : Parser (List Phrase) := phrase .script do
  let _ ← many Grammar.semicolon
  let read ← optional (statements value)
  skip
  let ended ← endOfInput
  return read.getD [] ++ ended

end Phrases

end FieldScript
