import KVSSD.Lib.Rows
import KVSSD.Lib.Struct

/-!
# SHA-256

The digest of `hashlib.sha256`: the message is padded to blocks of 64 bytes, and 64
rounds a block mix its words into a state of eight words.
-/

namespace KVSSD.Sha256

open KVSSD.Struct

def rotateRight (word : UInt32) (count : UInt32) : UInt32 :=
  (word >>> count) ||| (word <<< (32 - count))

/-- The first 32 bits of the fractional parts of the cube roots of the first 64 primes. -/
def roundConstants : List UInt32 :=
  [0x428a2f98, 0x71374491, 0xb5c0fbcf, 0xe9b5dba5, 0x3956c25b, 0x59f111f1, 0x923f82a4, 0xab1c5ed5,
    0xd807aa98, 0x12835b01, 0x243185be, 0x550c7dc3, 0x72be5d74, 0x80deb1fe, 0x9bdc06a7, 0xc19bf174,
    0xe49b69c1, 0xefbe4786, 0x0fc19dc6, 0x240ca1cc, 0x2de92c6f, 0x4a7484aa, 0x5cb0a9dc, 0x76f988da,
    0x983e5152, 0xa831c66d, 0xb00327c8, 0xbf597fc7, 0xc6e00bf3, 0xd5a79147, 0x06ca6351, 0x14292967,
    0x27b70a85, 0x2e1b2138, 0x4d2c6dfc, 0x53380d13, 0x650a7354, 0x766a0abb, 0x81c2c92e, 0x92722c85,
    0xa2bfe8a1, 0xa81a664b, 0xc24b8b70, 0xc76c51a3, 0xd192e819, 0xd6990624, 0xf40e3585, 0x106aa070,
    0x19a4c116, 0x1e376c08, 0x2748774c, 0x34b0bcb5, 0x391c0cb3, 0x4ed8aa4a, 0x5b9cca4f, 0x682e6ff3,
    0x748f82ee, 0x78a5636f, 0x84c87814, 0x8cc70208, 0x90befffa, 0xa4506ceb, 0xbef9a3f7, 0xc67178f2]

/-- The eight words mixed by the rounds. -/
structure State where
  a : UInt32
  b : UInt32
  c : UInt32
  d : UInt32
  e : UInt32
  f : UInt32
  g : UInt32
  h : UInt32
  deriving DecidableEq, Repr

def initial : State :=
  ⟨0x6a09e667, 0xbb67ae85, 0x3c6ef372, 0xa54ff53a, 0x510e527f, 0x9b05688c, 0x1f83d9ab, 0x5be0cd19⟩

/-- The next word of a schedule whose words so far come latest first. -/
def nextWord (latest : List UInt32) : UInt32 :=
  let early := latest.getD 14 0
  let late := latest.getD 1 0
  let early := rotateRight early 7 ^^^ rotateRight early 18 ^^^ (early >>> 3)
  let late := rotateRight late 17 ^^^ rotateRight late 19 ^^^ (late >>> 10)
  latest.getD 15 0 + early + latest.getD 6 0 + late

/-- The 64 words of a block: its own 16, big-endian, and 48 that follow from them. -/
def schedule (block : Bytes) : List UInt32 :=
  let words := (rows 16 4 block).map fun word => (leNat word.reverse).toUInt32
  ((List.range 48).foldl (fun latest _ => nextWord latest :: latest) words.reverse).reverse

def round (state : State) (step : UInt32 × UInt32) : State :=
  let choice := (state.e &&& state.f) ^^^ (~~~state.e &&& state.g)
  let majority := (state.a &&& state.b) ^^^ (state.a &&& state.c) ^^^ (state.b &&& state.c)
  let high := rotateRight state.e 6 ^^^ rotateRight state.e 11 ^^^ rotateRight state.e 25
  let low := rotateRight state.a 2 ^^^ rotateRight state.a 13 ^^^ rotateRight state.a 22
  let mixed := state.h + high + choice + step.1 + step.2
  ⟨mixed + low + majority, state.a, state.b, state.c, state.d + mixed, state.e, state.f, state.g⟩

def compress (state : State) (block : Bytes) : State :=
  let mixed := (roundConstants.zip (schedule block)).foldl round state
  ⟨state.a + mixed.a, state.b + mixed.b, state.c + mixed.c, state.d + mixed.d,
    state.e + mixed.e, state.f + mixed.f, state.g + mixed.g, state.h + mixed.h⟩

/-- A one bit, zeros to the next block that has room, and the length in bits. -/
def pad (message : Bytes) : Bytes :=
  message ++ 0x80 :: List.replicate ((119 - message.length % 64) % 64) 0 ++
    (leBytes 8 (8 * message.length)).reverse

def sha256 (message : Bytes) : Bytes :=
  let padded := pad message
  let state := (rows (padded.length / 64) 64 padded).foldl compress initial
  [state.a, state.b, state.c, state.d, state.e, state.f, state.g, state.h].flatMap
    fun word => (leBytes 4 word.toNat).reverse

/-- The digest of the bytes of `abc`. -/
example : sha256 [97, 98, 99] =
    [0xba, 0x78, 0x16, 0xbf, 0x8f, 0x01, 0xcf, 0xea, 0x41, 0x41, 0x40, 0xde, 0x5d, 0xae, 0x22,
      0x23, 0xb0, 0x03, 0x61, 0xa3, 0x96, 0x17, 0x7a, 0x9c, 0xb4, 0x10, 0xff, 0x61, 0xf2, 0x00,
      0x15, 0xad] := by
  decide +kernel

end KVSSD.Sha256
