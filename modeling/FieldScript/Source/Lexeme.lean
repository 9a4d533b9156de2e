/-! Lexemes: the pieces of text inside which nothing is skipped. Each reader splits the text into
the longest piece of its kind and the rest. -/
namespace FieldScript.Source

def isBlank (c : Char) : Bool := c == ' ' || c == '\t' || c == '\r' || c == '\n'

def endsLine (c : Char) : Bool := c == '\r' || c == '\n'

def isNameStart (c : Char) : Bool := c.isAlpha || c == '_'

def isNameChar (c : Char) : Bool := c.isAlphanum || c == '_'

/-- Blanks and comments; `inside` says that a comment is being read. A comment ends before the end
of its line. -/
def splitBlanks (inside : Bool) : List Char → List Char × List Char
  | [] => ([], [])
  | c :: cs =>
    if inside || isBlank c || c == '#' then
      let (piece, rest) := splitBlanks (if inside then !endsLine c else c == '#') cs
      (c :: piece, rest)
    else ([], c :: cs)

def splitWord (cs : List Char) : List Char × List Char :=
  (cs.takeWhile isNameChar, cs.dropWhile isNameChar)

def splitDigits (cs : List Char) : List Char × List Char :=
  (cs.takeWhile Char.isDigit, cs.dropWhile Char.isDigit)

def reserved : List String := ["missing", "if", "then", "else", "and", "or"]

def isName (word : List Char) : Bool :=
  match word with
  | [] => false
  | c :: _ => isNameStart c && !reserved.contains (String.ofList word)

def name? (cs : List Char) : Option (List Char × List Char) :=
  let (word, rest) := splitWord cs
  if isName word then some (word, rest) else none

def exactly? (expected : String) (cs : List Char) : Option (List Char × List Char) :=
  let (word, rest) := splitWord cs
  if word = expected.toList then some (word, rest) else none

def ignoringCase? (expected : String) (cs : List Char) : Option (List Char × List Char) :=
  let (word, rest) := splitWord cs
  if word.map Char.toLower = expected.toList then some (word, rest) else none

def literal? (expected : String) (cs : List Char) : Option (List Char × List Char) :=
  if expected.toList.isPrefixOf cs then
    some (expected.toList, cs.drop expected.toList.length)
  else none

def mantissa? (cs : List Char) : Option (List Char × List Char) :=
  match splitDigits cs with
  | ([], '.' :: rest) =>
    match splitDigits rest with
    | ([], _) => none
    | (fraction, rest) => some ('.' :: fraction, rest)
  | ([], _) => none
  | (whole, '.' :: rest) =>
    let (fraction, rest) := splitDigits rest
    some (whole ++ '.' :: fraction, rest)
  | (whole, rest) => some (whole, rest)

def splitOne (accepted : List Char) : List Char → List Char × List Char
  | [] => ([], [])
  | c :: cs => if c ∈ accepted then ([c], cs) else ([], c :: cs)

/-- A power of ten after a mantissa; without digits it is not one, and nothing is taken. -/
def splitExponent (cs : List Char) : List Char × List Char :=
  match splitOne ['e', 'E'] cs with
  | ([], _) => ([], cs)
  | (mark, rest) =>
    let (sign, rest) := splitOne ['+', '-'] rest
    match splitDigits rest with
    | ([], _) => ([], cs)
    | (power, rest) => (mark ++ sign ++ power, rest)

def number? (cs : List Char) : Option (List Char × List Char) := do
  let (sign, rest) := splitOne ['-'] cs
  let (mantissa, rest) ← mantissa? rest
  let (power, rest) := splitExponent rest
  some (sign ++ mantissa ++ power, rest)

def end? (cs : List Char) : Option (List Char × List Char) :=
  if cs.isEmpty then some ([], []) else none

end FieldScript.Source
