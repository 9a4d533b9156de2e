import FieldScript.Parse
import FieldScript.Proofs.Grammar.Phrases

/-! A script read in two stages. The grammar leaves phrases, and trees are built from those in a second
pass that takes nothing for granted: wherever the phrases do not have the form it expects there is a
refusal for it. -/
namespace FieldScript

inductive BuildFault where
  | unexpected (expected : List Rule) (found : Option Char)
  | unclosedParen (opened : Span)
  | invalidNumber (text : String)
  | tooDeep (depth limit : Nat)
  | invalidStatement (message : String)
  | other (message : String)
  deriving DecidableEq

structure BuildError where
  fault : BuildFault
  source : String
  span : Span
  deriving DecidableEq

def BuildFault.ofParse : ParseFault → BuildFault
  | .unexpected expected found => .unexpected expected found
  | .unclosedParen opened => .unclosedParen opened
  | .invalidNumber text => .invalidNumber text
  | .tooDeep depth limit => .tooDeep depth limit
  | .invalidCall cause => .invalidStatement cause.message

def BuildError.ofParse (e : ParseError) : BuildError := ⟨.ofParse e.fault, e.source, e.span⟩

abbrev Built (α : Type) := Except BuildError α

namespace Rule

def tag : Rule → String
  | endOfInput => "EOI"
  | script => "main"
  | expression => "expression"
  | statement => "statement"
  | conditional => "conditional"
  | assignment => "assignment"
  | call => "call"
  | arith => "binary"
  | tests => "logical"
  | test => "term"
  | add => "add"
  | sub => "sub"
  | mul => "mul"
  | div => "div"
  | le => "le"
  | ge => "ge"
  | eq => "eq"
  | ne => "ne"
  | lt => "lt"
  | gt => "gt"
  | and => "and"
  | or => "or"
  | ifWord => "kw_if"
  | thenWord => "kw_then"
  | elseWord => "kw_else"
  | name => "ident"
  | missing => "missing"
  | number => "number"

end Rule

namespace Building

section Phrases

variable (source : String)

def spanOf (phrase : Phrase) : Span := Parse.extentSpan source.toList phrase.extent

def invalid {α : Type} (message : String) (span : Span) : Built α :=
  .error ⟨.invalidStatement message, source, span⟩

def missing {α : Type} (span : Span) : Built α :=
  .error ⟨.other "missing expected pair in rule", source, span⟩

def next (span : Span) : List Phrase → Built (Phrase × List Phrase)
  | [] => missing source span
  | phrase :: rest => .ok (phrase, rest)

def leaf (phrase : Phrase) : Built Leaf :=
  match phrase.rule with
  | .name => .ok (.variable phrase.text)
  | .missing => .ok .missing
  | .number =>
    match Binary64.ofText? phrase.text with
    | some value =>
      if value.isFinite then .ok (.number phrase.text value)
      else .error ⟨.invalidNumber phrase.text, source, spanOf source phrase⟩
    | none => .error ⟨.invalidNumber phrase.text, source, spanOf source phrase⟩
  | other =>
    invalid source ("expected a field name, number or 'missing', found " ++ other.tag)
      (spanOf source phrase)

def arithOp (phrase : Phrase) : Built ArithOp :=
  match phrase.rule with
  | .add => .ok .add
  | .sub => .ok .sub
  | .mul => .ok .mul
  | .div => .ok .div
  | other => invalid source ("unknown operator " ++ other.tag) (spanOf source phrase)

def comparison (phrase : Phrase) : Built Comparison :=
  match phrase.rule with
  | .lt => .ok .lt
  | .le => .ok .le
  | .gt => .ok .gt
  | .ge => .ok .ge
  | .eq => .ok .eq
  | .ne => .ok .ne
  | other => invalid source ("unknown comparison " ++ other.tag) (spanOf source phrase)

def boolOp (phrase : Phrase) : Built BoolOp :=
  match phrase.rule with
  | .and => .ok .and
  | .or => .ok .or
  | other => invalid source ("unknown operator " ++ other.tag) (spanOf source phrase)

def steps {α β : Type} (op : Phrase → Built α) (part : Phrase → Built β) (span : Span) :
    List Phrase → Built (List (α × β))
  | [] => .ok []
  | [sign] => do
    let _ ← op sign
    missing source span
  | sign :: joined :: rest => do
    let op' ← op sign
    let part' ← part joined
    let others ← steps op part span rest
    pure ((op', part') :: others)

def arith (phrase : Phrase) : Built ArithChain := do
  let span := spanOf source phrase
  let (first, rest) ← next source span phrase.inside
  let first ← leaf source first
  let rest ← steps source (arithOp source) (leaf source) span rest
  pure ⟨first, rest⟩

def test (phrase : Phrase) : Built Test := do
  let span := spanOf source phrase
  let (left, rest) ← next source span phrase.inside
  let left ← leaf source left
  let (op, rest) ← next source span rest
  let op ← comparison source op
  let (right, _) ← next source span rest
  let right ← leaf source right
  pure ⟨left, op, right⟩

def tests (phrase : Phrase) : Built TestChain := do
  let span := spanOf source phrase
  let (first, rest) ← next source span phrase.inside
  let first ← test source first
  let rest ← steps source (boolOp source) (test source) span rest
  pure ⟨first, rest⟩

def call (span : Span) (keyword : String) (args : List Tree) : Built Tree :=
  match Tree.buildCall keyword args with
  | .ok tree => .ok tree
  | .error cause => invalid source cause.message span

mutual

/-- Whatever is neither a call nor a chain is taken for a leaf. -/
def value : Phrase → Built Tree
  | .mk .call extent (keyword :: args) => do
    let args ← values args
    call source (Parse.extentSpan source.toList extent) keyword.text args
  | .mk .call extent [] => missing source (Parse.extentSpan source.toList extent)
  | .mk .tests extent inside => return .tests (← tests source (.mk .tests extent inside))
  | .mk .arith extent inside => return .arith (← arith source (.mk .arith extent inside))
  | phrase => return .leaf (← leaf source phrase)

def values : List Phrase → Built (List Tree)
  | [] => .ok []
  | phrase :: rest => do
    let tree ← value phrase
    let others ← values rest
    pure (tree :: others)

end

def assignment (phrase : Phrase) : Built (Leaf × Tree) := do
  let span := spanOf source phrase
  let (target, rest) ← next source span phrase.inside
  let (result, _) ← next source span rest
  let tree ← value source result
  match Tree.buildAssign (.variable target.text) tree with
  | .ok _ => pure (.variable target.text, tree)
  | .error cause => invalid source cause.message span

/-- The last test found among the phrases of a conditional, and all its branches. -/
structure Gathered where
  test : Option TestChain
  branches : List (Leaf × Tree)

def gather (found : Gathered) (phrase : Phrase) : Built Gathered :=
  match phrase.rule with
  | .tests => do
    let test ← tests source phrase
    pure { found with test := some test }
  | .assignment => do
    let branch ← assignment source phrase
    pure { found with branches := found.branches ++ [branch] }
  | _ => pure found

def conditional (phrase : Phrase) : Built Tree := do
  let span := spanOf source phrase
  let found ← phrase.inside.foldlM (gather source) ⟨none, []⟩
  match found.test, found.branches with
  | none, _ => invalid source "conditional without a test" span
  | some _, [] => invalid source "conditional without a then branch" span
  | some test, [(target, result)] => pure (.guarded test target result)
  | some test, (target, result) :: (target', result') :: _ =>
    pure (.branched test target result target' result')

def statement (phrase : Phrase) : Built Tree := do
  let span := spanOf source phrase
  let (inner, _) ← next source span phrase.inside
  match inner.rule with
  | .assignment => do
    let (target, result) ← assignment source inner
    pure (.assign target result)
  | .conditional => conditional source inner
  | other => invalid source ("unexpected " ++ other.tag ++ " in statement") span

def statements (phrases : List Phrase) : Built (List Tree) :=
  (phrases.filter fun phrase => phrase.rule = .statement).mapM (statement source)

def checkNesting (limit pos depth : Nat) : List Char → Built Unit
  | [] => .ok ()
  | c :: cs =>
    if c = '(' then
      if limit < depth + 1 then .error ⟨.tooDeep (depth + 1) limit, source, ⟨pos, pos + 1⟩⟩
      else checkNesting limit (pos + c.utf8Size) (depth + 1) cs
    else if c = ')' then checkNesting limit (pos + c.utf8Size) (depth - 1) cs
    else checkNesting limit (pos + c.utf8Size) depth cs

end Phrases

def reader (source : List Char) : Parser (List Phrase) :=
  Phrases.script (Phrases.value (Parse.levels source))

def phrases (source : String) : Built (List Phrase) :=
  match (reader source.toList).run source.toList (.start source.toList.length) with
  | (some (phrases, _), _) => .ok phrases
  | (none, record) => .error (.ofParse (Parse.syntaxError source record))

def script (source : String) (maxDepth : Nat) : Built (List Tree) := do
  checkNesting source maxDepth 0 0 source.toList
  let read ← phrases source
  let (whole, _) ← next source ⟨0, Source.byteLength source.toList⟩ read
  statements source whole.inside

end Building

end FieldScript
