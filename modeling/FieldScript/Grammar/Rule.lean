/-! The named rules of the grammar, in the order in which a syntax error lists them. -/
namespace FieldScript

inductive Rule where
  | endOfInput
  | script
  | expression
  | statement
  | conditional
  | assignment
  | call
  | arith
  | tests
  | test
  | add
  | sub
  | mul
  | div
  | le
  | ge
  | eq
  | ne
  | lt
  | gt
  | and
  | or
  | ifWord
  | thenWord
  | elseWord
  | name
  | missing
  | number
  deriving DecidableEq

namespace Rule

def all : List Rule :=
  [endOfInput, script, expression, statement, conditional, assignment, call, arith, tests, test,
    add, sub, mul, div, le, ge, eq, ne, lt, gt, and, or, ifWord, thenWord, elseWord, name,
    missing, number]

def ordered (rules : List Rule) : List Rule := all.filter rules.contains

def concept : Rule → String
  | number | missing => "literal"
  | name => "identifier"
  | add | sub | mul | div => "arithmetic operator"
  | le | ge | eq | ne | lt | gt => "comparison operator"
  | and | or => "'and' or 'or'"
  | thenWord => "'then'"
  | elseWord => "'else'"
  | ifWord => "statement"
  | endOfInput => "end of input"
  | script | expression | statement | conditional | assignment | call | arith | tests | test =>
    "expression"

def alternatives : List String → String
  | [] => "something else"
  | [item] => item
  | items => ", ".intercalate items.dropLast ++ " or " ++ items.getLastD ""

def concepts (rules : List Rule) : List String := ((ordered rules).map concept).eraseDups

end Rule

end FieldScript
