import FieldScript.Text.Escape

/-! Structured debug output. One description of a value has two layouts: on one line, or with one
item a line, indented by four blanks and closed by a comma. -/
namespace FieldScript

inductive Dump where
  | atom (content : String)
  | text (content : String)
  | list (items : List Dump)
  /-- A name with unnamed parts; a tuple has the empty name. -/
  | call (name : String) (items : List Dump)
  | record (name : String) (items : List (String × Dump))
  /-- A record that has further parts it does not show. -/
  | openRecord (name : String) (items : List (String × Dump))

namespace Dump

def separated : List String → String
  | [] => ""
  | [item] => item
  | item :: rest => item ++ ", " ++ separated rest

mutual

def inline : Dump → String
  | .atom content => content
  | .text content => Text.quoted content
  | .list items => "[" ++ separated (inlineItems items) ++ "]"
  | .call name items => name ++ "(" ++ separated (inlineItems items) ++ ")"
  | .record name items => name ++ " \x7b " ++ separated (inlineParts items) ++ " \x7d"
  | .openRecord name items =>
    name ++ " \x7b " ++ separated (inlineParts items ++ [".."]) ++ " \x7d"

def inlineItems : List Dump → List String
  | [] => []
  | item :: rest => inline item :: inlineItems rest

def inlineParts : List (String × Dump) → List String
  | [] => []
  | (name, item) :: rest => (name ++ ": " ++ inline item) :: inlineParts rest

end

def margin (depth : Nat) : String := "".pushn ' ' (4 * depth)

mutual

def block (depth : Nat) : Dump → String
  | .atom content => content
  | .text content => Text.quoted content
  | .list [] => "[]"
  | .list items => "[\n" ++ blockItems (depth + 1) items ++ margin depth ++ "]"
  | .call name [] => name ++ "()"
  | .call name items => name ++ "(\n" ++ blockItems (depth + 1) items ++ margin depth ++ ")"
  | .record name items =>
    name ++ " \x7b\n" ++ blockParts (depth + 1) items ++ margin depth ++ "\x7d"
  | .openRecord name items =>
    name ++ " \x7b\n" ++ blockParts (depth + 1) items ++ margin (depth + 1) ++ "..\n" ++
      margin depth ++ "\x7d"

def blockItems (depth : Nat) : List Dump → String
  | [] => ""
  | item :: rest => margin depth ++ block depth item ++ ",\n" ++ blockItems depth rest

def blockParts (depth : Nat) : List (String × Dump) → String
  | [] => ""
  | (name, item) :: rest =>
    margin depth ++ name ++ ": " ++ block depth item ++ ",\n" ++ blockParts depth rest

end

end Dump

end FieldScript
