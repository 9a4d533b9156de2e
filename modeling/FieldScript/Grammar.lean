import FieldScript.Binary64.Read
import FieldScript.Grammar.Fault

/-! The grammar of scripts. Blanks and comments may stand between any two parts. A value is tried
as a call, then as tests, then as an arithmetic chain, then as a single operand; chains have no
precedence and hold no calls, so only calls nest. -/
namespace FieldScript.Grammar

open FieldScript.Parser

def nameText : Parser String := do
  let word ← named .name (lexeme Source.name?)
  return String.ofList word

def numberLeaf (text : List Char) (extent : Extent) : Checked Leaf :=
  let label := String.ofList text
  match Binary64.ofText? label with
  | some value => if value.isFinite then .ok (.number label value) else .error (.number label extent)
  | none => .error (.number label extent)

def number : Parser (Checked Leaf) := do
  let (text, extent) ← located (named .number (lexeme Source.number?))
  return numberLeaf text extent

def keyword (rule : Rule) (spelled : String) : Parser Unit :=
  named rule (token (Source.exactly? spelled))

def missing : Parser (Checked Leaf) := do
  keyword .missing "missing"
  return .ok .missing

def variableLeaf : Parser (Checked Leaf) := do
  let name ← nameText
  return .ok (.variable name)

def operand : Parser (Checked Leaf) := number <|> missing <|> variableLeaf

def sign {α : Type} (rule : Rule) (text : String) (a : α) : Parser α := do
  named rule (symbol text)
  return a

def arithOp : Parser ArithOp :=
  sign .add "+" .add <|> sign .sub "-" .sub <|> sign .mul "*" .mul <|> sign .div "/" .div

def comparison : Parser Comparison :=
  sign .le "<=" .le <|> sign .ge ">=" .ge <|> sign .eq "==" .eq <|> sign .ne "!=" .ne <|>
    sign .lt "<" .lt <|> sign .gt ">" .gt

def boolWord (rule : Rule) (text spelled : String) (op : BoolOp) : Parser BoolOp := do
  named rule (symbol text <|> token (Source.ignoringCase? spelled))
  return op

def boolOp : Parser BoolOp := boolWord .and "&&" "and" .and <|> boolWord .or "||" "or" .or

def chain {α β : Type} : List (α × Checked β) → Checked (List (α × β))
  | [] => .ok []
  | (op, part) :: rest => do
    let part ← part
    let rest ← chain rest
    pure ((op, part) :: rest)

def arith : Parser (Checked Tree) := named .arith do
  let first ← operand
  let rest ← oneOrMore do
    skip
    let op ← arithOp
    skip
    let part ← operand
    return (op, part)
  return do
    let first ← first
    let rest ← chain rest
    pure (.arith ⟨first, rest⟩)

def test : Parser (Checked Test) := named .test do
  let left ← operand
  skip
  let op ← comparison
  skip
  let right ← operand
  return do
    let left ← left
    let right ← right
    pure ⟨left, op, right⟩

def tests : Parser (Checked TestChain) := named .tests do
  let first ← test
  let rest ← many do
    skip
    let op ← boolOp
    skip
    let part ← test
    return (op, part)
  return do
    let first ← first
    let rest ← chain rest
    pure ⟨first, rest⟩

/-- A call is checked once its arguments are known to be sound. -/
def buildCall (keyword : String) (args : List (Checked Tree)) (extent : Extent) : Checked Tree := do
  let args ← args.mapM id
  match Tree.buildCall keyword args with
  | .ok tree => .ok tree
  | .error cause => .error (.call cause extent)

def arguments (value : Parser (Checked Tree)) : Parser (List (Checked Tree)) := do
  let first ← value
  let rest ← many do
    skip
    symbol ","
    skip
    value
  return first :: rest

def call (value : Parser (Checked Tree)) : Parser (Checked Tree) := do
  let ((keyword, args), extent) ← located <| named .call do
    let keyword ← nameText
    skip
    symbol "("
    skip
    let args ← optional (arguments value)
    skip
    symbol ")"
    return (keyword, args.getD [])
  return buildCall keyword args extent

def testsValue : Parser (Checked Tree) := do
  let chain ← tests
  return chain.map .tests

def leafValue : Parser (Checked Tree) := do
  let leaf ← operand
  return leaf.map .leaf

def valueOver (inner : Parser (Checked Tree)) : Parser (Checked Tree) :=
  call inner <|> testsValue <|> arith <|> leafValue

/-- A value in which calls are nested at most `levels` deep beyond the first. -/
def value : Nat → Parser (Checked Tree)
  | 0 => valueOver fail
  | levels + 1 => valueOver (value levels)

def assignment (value : Parser (Checked Tree)) : Parser (Leaf × Checked Tree) :=
  named .assignment do
    let target ← nameText
    skip
    symbol "="
    skip
    let value ← value
    return (.variable target, value)

def conditional (value : Parser (Checked Tree)) : Parser (Checked Tree) :=
  named .conditional do
    keyword .ifWord "if"
    skip
    symbol "("
    skip
    let test ← tests
    skip
    symbol ")"
    skip
    keyword .thenWord "then"
    skip
    let (target, result) ← assignment value
    let other ← optional do
      skip
      keyword .elseWord "else"
      skip
      assignment value
    return do
      let test ← test
      let result ← result
      match other with
      | none => pure (.guarded test target result)
      | some (target', result') => pure (.branched test target result target' (← result'))

def statement (value : Parser (Checked Tree)) : Parser (Checked Tree) :=
  named .statement <| conditional value <|> do
    let (target, result) ← assignment value
    return result.map (.assign target)

def endOfInput : Parser Unit := named .endOfInput (token Source.end?)

def semicolon : Parser Unit := do
  skip
  symbol ";"

def script (value : Parser (Checked Tree)) : Parser (List (Checked Tree)) := named .script do
  let _ ← many semicolon
  let statements ← optional do
    skip
    let first ← statement value
    let rest ← many do
      let _ ← oneOrMore semicolon
      skip
      statement value
    let _ ← many semicolon
    return first :: rest
  skip
  endOfInput
  return statements.getD []

def expression (value : Parser (Checked Tree)) : Parser (Checked Tree) := named .expression do
  skip
  let tree ← value
  skip
  endOfInput
  return tree

end FieldScript.Grammar
