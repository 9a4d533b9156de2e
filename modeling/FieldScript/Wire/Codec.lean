import FieldScript.Binary64
import FieldScript.Wire.Varint

/-! Wire forms of the parts of a tree: texts, numbers, truth values, lists and options. -/
namespace FieldScript.Wire

def fail {α : Type} : Decoder α := fun _ => none

def byte : Decoder UInt8
  | [] => none
  | b :: rest => some (b, rest)

def take (n : Nat) : Decoder Bytes := fun bytes =>
  if n ≤ bytes.length then some (bytes.take n, bytes.drop n) else none

def text (s : String) : Bytes := varint s.toUTF8.size ++ s.toUTF8.toList

def readText : Decoder String := do
  let n ← readCount
  let bytes ← take n
  match String.fromUTF8? ⟨bytes.toArray⟩ with
  | some s => pure s
  | none => fail

def lowBytes : (count value : Nat) → Bytes
  | 0, _ => []
  | count + 1, value => UInt8.ofNat value :: lowBytes count (value / 256)

def ofLowBytes (bytes : Bytes) : Nat := bytes.foldr (fun b high => b.toNat + 256 * high) 0

def number (x : Binary64) : Bytes := lowBytes 8 x.bits.toNat

def readNumber : Decoder Binary64 := do
  let bytes ← take 8
  pure ⟨UInt64.ofNat (ofLowBytes bytes)⟩

def truth (b : Bool) : Bytes := [if b then 1 else 0]

def readTruth : Decoder Bool := do
  match (← byte).toNat with
  | 0 => pure false
  | 1 => pure true
  | _ => fail

def list {α : Type} (item : α → Bytes) (items : List α) : Bytes :=
  varint items.length ++ items.flatMap item

def readTimes {α : Type} (item : Decoder α) : Nat → Decoder (List α)
  | 0 => pure []
  | n + 1 => do
    let first ← item
    let rest ← readTimes item n
    pure (first :: rest)

def readList {α : Type} (item : Decoder α) : Decoder (List α) := do
  readTimes item (← readCount)

def readCase {α : Type} (cases : List α) : Decoder α := do
  match cases[← readTag]? with
  | some a => pure a
  | none => fail

end FieldScript.Wire
