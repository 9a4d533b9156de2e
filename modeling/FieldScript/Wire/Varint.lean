/-! Unsigned integers in groups of seven bits, lowest first; every byte but the last has its high
bit set. A reader takes padded forms too, and refuses what does not fit its width. -/
namespace FieldScript.Wire

abbrev Bytes := List UInt8

abbrev Decoder := StateT Bytes Option

def varint (n : Nat) : Bytes :=
  if n < 128 then [UInt8.ofNat n] else UInt8.ofNat (n % 128 + 128) :: varint (n / 128)

/-- At most `more` bytes with the high bit set; one after that many may be `last` at most. -/
def readVarintWithin : (more last : Nat) → Decoder Nat
  | _, _, [] => none
  | 0, last, b :: rest => if b.toNat ≤ last then some (b.toNat, rest) else none
  | more + 1, last, b :: rest =>
    if b.toNat < 128 then some (b.toNat, rest)
    else do
      let (high, rest) ← readVarintWithin more last rest
      some (b.toNat - 128 + 128 * high, rest)

def readTag : Decoder Nat := readVarintWithin 4 0x0F

def readCount : Decoder Nat := readVarintWithin 9 0x01

end FieldScript.Wire
