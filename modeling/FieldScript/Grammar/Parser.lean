import FieldScript.Grammar.Rule
import FieldScript.Source.Lexeme

/-! Parsers that take the first alternative that matches. `parse` says what a parser reads; `run`
reads the same and also keeps the record from which a syntax error is worded. That the record
never changes what is read is part of the type. -/
namespace FieldScript

/-- The rules that failed at the furthest place where one failed. Places are counted by the
characters that follow them. -/
structure Record where
  left : Nat
  furthest : Nat
  rules : List Rule

namespace Record

def start (length : Nat) : Record := ⟨length, length, []⟩

def countAt (record : Record) (place : Nat) : Nat :=
  if record.furthest = place then record.rules.length else 0

/-- A rule failed at a place; `before` counts the record there before the rule was tried. It takes
the place of what its parts recorded there, unless that was a single rule, which says more. -/
def failed (record : Record) (rule : Rule) (place before : Nat) : Record :=
  if record.countAt place = before + 1 then record
  else if place = record.furthest then
    { record with rules := record.rules.take before ++ [rule] }
  else if place < record.furthest then { record with furthest := place, rules := [rule] }
  else record

def backTo (record : Record) (place : Nat) : Record := { record with left := place }

end Record

structure Parser (α : Type) where
  parse : List Char → Option (α × List Char)
  run : List Char → Record → Option (α × List Char) × Record
  fst_run : ∀ cs record, (run cs record).1 = parse cs

namespace Parser

variable {α β : Type}

protected def pure (a : α) : Parser α where
  parse cs := some (a, cs)
  run cs record := (some (a, cs), record)
  fst_run _ _ := rfl

protected def bind (p : Parser α) (f : α → Parser β) : Parser β where
  parse cs :=
    match p.parse cs with
    | some (a, rest) => (f a).parse rest
    | none => none
  run cs record :=
    match p.run cs record with
    | (some (a, rest), record) => (f a).run rest record
    | (none, record) => (none, record)
  fst_run cs record := by
    have h := p.fst_run cs record
    rw [← h]
    rcases p.run cs record with ⟨_ | ⟨a, rest⟩, record⟩
    · rfl
    · exact (f a).fst_run rest record

instance : Monad Parser where
  pure := Parser.pure
  bind := Parser.bind

protected def orElse (p q : Parser α) : Parser α where
  parse cs :=
    match p.parse cs with
    | some result => some result
    | none => q.parse cs
  run cs record :=
    match p.run cs record with
    | (some result, record) => (some result, record)
    | (none, after) => q.run cs (after.backTo record.left)
  fst_run cs record := by
    have h := p.fst_run cs record
    rw [← h]
    rcases p.run cs record with ⟨_ | result, after⟩
    · exact q.fst_run cs _
    · rfl

instance : OrElse (Parser α) where
  orElse p q := p.orElse (q ())

def fail : Parser α where
  parse _ := none
  run _ record := (none, record)
  fst_run _ _ := rfl

/-- Reads a piece of text; nothing inside it is recorded. -/
def lexeme (read : List Char → Option (List Char × List Char)) : Parser (List Char) where
  parse := read
  run cs record :=
    match read cs with
    | some (piece, rest) => (some (piece, rest), record.backTo (record.left - piece.length))
    | none => (none, record)
  fst_run cs record := by
    rcases read cs with _ | ⟨piece, rest⟩ <;> rfl

def token (read : List Char → Option (List Char × List Char)) : Parser Unit := do
  let _ ← lexeme read

def symbol (text : String) : Parser Unit := token (Source.literal? text)

def skip : Parser Unit := token fun cs => some (Source.splitBlanks false cs)

def named (rule : Rule) (p : Parser α) : Parser α where
  parse := p.parse
  run cs record :=
    match p.run cs record with
    | (some result, after) => (some result, after)
    | (none, after) => (none, after.failed rule record.left (record.countAt record.left))
  fst_run cs record := by
    have h := p.fst_run cs record
    rw [← h]
    rcases p.run cs record with ⟨_ | result, after⟩ <;> rfl

structure Extent where
  before : List Char
  after : List Char

def located (p : Parser α) : Parser (α × Extent) where
  parse cs := (p.parse cs).map fun (a, rest) => ((a, ⟨cs, rest⟩), rest)
  run cs record :=
    let (result, after) := p.run cs record
    (result.map fun (a, rest) => ((a, ⟨cs, rest⟩), rest), after)
  fst_run cs record := by simp [p.fst_run cs record]

def parseMany (p : Parser α) : Nat → List Char → List α × List Char
  | 0, cs => ([], cs)
  | fuel + 1, cs =>
    match p.parse cs with
    | none => ([], cs)
    | some (a, rest) =>
      let (as, rest) := p.parseMany fuel rest
      (a :: as, rest)

def runMany (p : Parser α) : Nat → List Char → Record → (List α × List Char) × Record
  | 0, cs, record => (([], cs), record)
  | fuel + 1, cs, record =>
    match p.run cs record with
    | (none, after) => (([], cs), after.backTo record.left)
    | (some (a, rest), after) =>
      let ((as, rest), after) := p.runMany fuel rest after
      ((a :: as, rest), after)

theorem fst_runMany (p : Parser α) (fuel : Nat) (cs : List Char) (record : Record) :
    (p.runMany fuel cs record).1 = p.parseMany fuel cs := by
  induction fuel generalizing cs record with
  | zero => rfl
  | succ fuel ih =>
    have h := p.fst_run cs record
    simp only [runMany, parseMany, ← h]
    rcases p.run cs record with ⟨_ | ⟨a, rest⟩, after⟩
    · rfl
    · simp [ih rest after]

/-- As often as it matches. The parser must read something; then the length of the text bounds
the repetitions. -/
def many (p : Parser α) : Parser (List α) where
  parse cs := some (p.parseMany (cs.length + 1) cs)
  run cs record :=
    let (result, after) := p.runMany (cs.length + 1) cs record
    (some result, after)
  fst_run cs record := by simp [p.fst_runMany]

def oneOrMore (p : Parser α) : Parser (List α) := do
  let first ← p
  let rest ← p.many
  pure (first :: rest)

def optional (p : Parser α) : Parser (Option α) := (do return some (← p)) <|> pure none

end Parser

end FieldScript
