import FieldScript.Source.Span

/-! Parentheses of a raw text. Neither reader knows comments: every parenthesis counts. -/
namespace FieldScript.Source

/-- Byte positions of the parentheses still open at the end, innermost first. A closing one
without an open one is ignored. -/
def openParensFrom (pos : Nat) (stack : List Nat) : List Char → List Nat
  | [] => stack
  | c :: cs =>
    let stack := if c = '(' then pos :: stack else if c = ')' then stack.tail else stack
    openParensFrom (pos + c.utf8Size) stack cs

def unclosedParen (source : List Char) : Option Span :=
  (openParensFrom 0 [] source).head?.map fun pos => ⟨pos, pos + 1⟩

def tooDeepFrom (limit pos depth : Nat) : List Char → Option Span
  | [] => none
  | c :: cs =>
    if c = '(' then
      if limit < depth + 1 then some ⟨pos, pos + 1⟩
      else tooDeepFrom limit (pos + 1) (depth + 1) cs
    else if c = ')' then tooDeepFrom limit (pos + 1) (depth - 1) cs
    else tooDeepFrom limit (pos + c.utf8Size) depth cs

def tooDeep (limit : Nat) (source : List Char) : Option Span := tooDeepFrom limit 0 0 source

end FieldScript.Source
