/-! Places in a source text, counted in bytes of its UTF-8 form. -/
namespace FieldScript

structure Span where
  start : Nat
  stop : Nat
  deriving DecidableEq

namespace Source

def byteLength (cs : List Char) : Nat := cs.foldr (fun c n => c.utf8Size + n) 0

/-- The text before a byte position and the text from there on, if no character straddles it. -/
def splitAt? : Nat → List Char → Option (List Char × List Char)
  | 0, cs => some ([], cs)
  | _ + 1, [] => none
  | n + 1, c :: cs =>
    if c.utf8Size ≤ n + 1 then
      (splitAt? (n + 1 - c.utf8Size) cs).map fun (before, after) => (c :: before, after)
    else none

end Source

namespace Span

def combine (a b : Span) : Span := ⟨a.start, b.stop⟩

def textIn? (span : Span) (source : List Char) : Option (List Char) :=
  if span.start ≤ span.stop then do
    let (_, rest) ← Source.splitAt? span.start source
    let (text, _) ← Source.splitAt? (span.stop - span.start) rest
    some text
  else none

def textIn (span : Span) (source : String) : String :=
  String.ofList ((span.textIn? source.toList).getD [])

end Span

end FieldScript
