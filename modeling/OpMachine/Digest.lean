namespace OpMachine
namespace Digest

/-!
The 64-bit digest of a byte string.

This is xxHash64 with seed zero.  The bytes are first cut into little-endian
words of eight bytes.  Four words at a time feed four running lanes, the words
that are left over and then the last few bytes are absorbed one by one, and a
final avalanche spreads every input bit over the whole digest.  All arithmetic
wraps at 64 bits.
-/

def prime1 : UInt64 := 0x9E3779B185EBCA87
def prime2 : UInt64 := 0xC2B2AE3D27D4EB4F
def prime3 : UInt64 := 0x165667B19E3779F9
def prime4 : UInt64 := 0x85EBCA77C2B2AE63
def prime5 : UInt64 := 0x27D4EB2F165667C5

/-- Rotation to the left; the amount lies strictly between 0 and 64. -/
def rotateLeft (word amount : UInt64) : UInt64 :=
  (word <<< amount) ||| (word >>> (64 - amount))

def littleEndian : List UInt8 -> UInt64
  | [] => 0
  | byte :: rest => byte.toUInt64 ||| (littleEndian rest <<< 8)

/-- Full words from the front, and the fewer than eight bytes left over. -/
def words : List UInt8 -> List UInt64 × List UInt8
  | b0 :: b1 :: b2 :: b3 :: b4 :: b5 :: b6 :: b7 :: rest =>
      let cut := words rest
      (littleEndian [b0, b1, b2, b3, b4, b5, b6, b7] :: cut.1, cut.2)
  | rest => ([], rest)

def absorb (lane word : UInt64) : UInt64 :=
  rotateLeft (lane + word * prime2) 31 * prime1

structure Lanes where
  first : UInt64
  second : UInt64
  third : UInt64
  fourth : UInt64

namespace Lanes

def initial : Lanes :=
  ⟨prime1 + prime2, prime2, 0, 0 - prime1⟩

def merge (digest lane : UInt64) : UInt64 :=
  (digest ^^^ absorb 0 lane) * prime1 + prime4

def join (lanes : Lanes) : UInt64 :=
  let mixed := rotateLeft lanes.first 1 + rotateLeft lanes.second 7
    + rotateLeft lanes.third 12 + rotateLeft lanes.fourth 18
  merge (merge (merge (merge mixed lanes.first) lanes.second) lanes.third) lanes.fourth

/-- Stripes of four words absorbed from the front, and the words left over. -/
def absorbStripes (lanes : Lanes) : List UInt64 -> Lanes × List UInt64
  | a :: b :: c :: d :: rest =>
      absorbStripes
        ⟨absorb lanes.first a, absorb lanes.second b,
          absorb lanes.third c, absorb lanes.fourth d⟩ rest
  | rest => (lanes, rest)

end Lanes

def absorbWord (digest word : UInt64) : UInt64 :=
  rotateLeft (digest ^^^ absorb 0 word) 27 * prime1 + prime4

def absorbHalfWord (digest word : UInt64) : UInt64 :=
  rotateLeft (digest ^^^ (word * prime1)) 23 * prime2 + prime3

variable (digest : UInt64)

def absorbByte (byte : UInt8) : UInt64 :=
  rotateLeft (digest ^^^ (byte.toUInt64 * prime5)) 11 * prime1

/-- The last fewer than eight bytes, four of them together when there are four. -/
def absorbTail : List UInt8 -> UInt64
  | b0 :: b1 :: b2 :: b3 :: rest =>
      rest.foldl absorbByte (absorbHalfWord digest (littleEndian [b0, b1, b2, b3]))
  | rest => rest.foldl absorbByte digest

def avalanche : UInt64 :=
  let first := (digest ^^^ (digest >>> 33)) * prime2
  let second := (first ^^^ (first >>> 29)) * prime3
  second ^^^ (second >>> 32)

def ofBytes (bytes : List UInt8) : UInt64 :=
  let (full, tail) := words bytes
  let (lanes, left) := Lanes.initial.absorbStripes full
  let start := if full.length < 4 then prime5 else lanes.join
  let counted := start + bytes.length.toUInt64
  avalanche (absorbTail (left.foldl absorbWord counted) tail)

def ofText (text : String) : UInt64 :=
  ofBytes text.toUTF8.data.toList

end Digest
end OpMachine
