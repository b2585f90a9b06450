/-!
# The SHA-256 digest

The digest of a byte string is computed over 32-bit words.  The string is
padded with a marker bit and its length to a whole number of blocks of 64
bytes.  Each block is expanded to a schedule of 64 words, and 64 rounds mix it
into a state of eight words.  The digest is the final state.

`digest` gives the bytes, `hexDigest` their text in hexadecimal digits.
-/

namespace SparseLoop

namespace Sha256

/-- The words that the rounds add, one for each round. -/
def roundConstants : List UInt32 :=
  [ 0x428a2f98, 0x71374491, 0xb5c0fbcf, 0xe9b5dba5, 0x3956c25b, 0x59f111f1,
    0x923f82a4, 0xab1c5ed5, 0xd807aa98, 0x12835b01, 0x243185be, 0x550c7dc3,
    0x72be5d74, 0x80deb1fe, 0x9bdc06a7, 0xc19bf174, 0xe49b69c1, 0xefbe4786,
    0x0fc19dc6, 0x240ca1cc, 0x2de92c6f, 0x4a7484aa, 0x5cb0a9dc, 0x76f988da,
    0x983e5152, 0xa831c66d, 0xb00327c8, 0xbf597fc7, 0xc6e00bf3, 0xd5a79147,
    0x06ca6351, 0x14292967, 0x27b70a85, 0x2e1b2138, 0x4d2c6dfc, 0x53380d13,
    0x650a7354, 0x766a0abb, 0x81c2c92e, 0x92722c85, 0xa2bfe8a1, 0xa81a664b,
    0xc24b8b70, 0xc76c51a3, 0xd192e819, 0xd6990624, 0xf40e3585, 0x106aa070,
    0x19a4c116, 0x1e376c08, 0x2748774c, 0x34b0bcb5, 0x391c0cb3, 0x4ed8aa4a,
    0x5b9cca4f, 0x682e6ff3, 0x748f82ee, 0x78a5636f, 0x84c87814, 0x8cc70208,
    0x90befffa, 0xa4506ceb, 0xbef9a3f7, 0xc67178f2 ]

/-- The eight words that the rounds mix. -/
structure State where
  a : UInt32
  b : UInt32
  c : UInt32
  d : UInt32
  e : UInt32
  f : UInt32
  g : UInt32
  h : UInt32
deriving DecidableEq, Repr

namespace State

/-- The state before the first block. -/
def initial : State :=
  ⟨0x6a09e667, 0xbb67ae85, 0x3c6ef372, 0xa54ff53a,
    0x510e527f, 0x9b05688c, 0x1f83d9ab, 0x5be0cd19⟩

/-- The words of a state, in order. -/
def words (state : State) : List UInt32 :=
  [state.a, state.b, state.c, state.d, state.e, state.f, state.g, state.h]

/-- The sums of the words of two states. -/
def add (left right : State) : State where
  a := left.a + right.a
  b := left.b + right.b
  c := left.c + right.c
  d := left.d + right.d
  e := left.e + right.e
  f := left.f + right.f
  g := left.g + right.g
  h := left.h + right.h

end State

/-- A word rotated to the right by fewer than 32 bits. -/
def rotate (word : UInt32) (count : UInt32) : UInt32 :=
  (word >>> count) ||| (word <<< (32 - count))

/-- The bytes of a word, the most significant first. -/
def bytesOfWord (word : UInt32) : List UInt8 :=
  [ (word >>> 24).toUInt8, (word >>> 16).toUInt8, (word >>> 8).toUInt8,
    word.toUInt8 ]

/-- The words of a byte string, the most significant byte of each first. -/
def wordsOfBytes : List UInt8 → List UInt32
  | first :: second :: third :: fourth :: rest =>
    ((first.toUInt32 <<< 24) ||| (second.toUInt32 <<< 16) |||
      (third.toUInt32 <<< 8) ||| fourth.toUInt32) :: wordsOfBytes rest
  | _ => []

/-- A byte string with the marker bit, zeros, and its length in bits. -/
def pad (message : List UInt8) : List UInt8 :=
  let zeros := (119 - message.length % 64) % 64
  let bits := UInt64.ofNat (8 * message.length)
  let marker : List UInt8 := 0x80 :: List.replicate zeros 0
  let length :=
    bytesOfWord (bits >>> 32).toUInt32 ++ bytesOfWord bits.toUInt32
  message ++ marker ++ length

/-- The blocks of a padded byte string, as sixteen words each. -/
def blocks (padded : List UInt8) : List (List UInt32) :=
  (List.range (padded.length / 64)).map fun index =>
    wordsOfBytes ((padded.drop (64 * index)).take 64)

/-- The next word of a schedule. -/
def nextWord (schedule : Array UInt32) : UInt32 :=
  let back (distance : Nat) := schedule.getD (schedule.size - distance) 0
  let near := back 2
  let far := back 15
  back 16 + (rotate far 7 ^^^ rotate far 18 ^^^ (far >>> 3)) + back 7 +
    (rotate near 17 ^^^ rotate near 19 ^^^ (near >>> 10))

/-- The sixteen words of a block, and the 48 that follow from them. -/
def schedule (block : List UInt32) : List UInt32 :=
  ((List.range 48).foldl
    (fun words _ => words.push (nextWord words)) block.toArray).toList

/-- One round, with its constant and its word of the schedule. -/
def round (state : State) (constant word : UInt32) : State :=
  let choice := (state.e &&& state.f) ^^^ (~~~state.e &&& state.g)
  let majority :=
    (state.a &&& state.b) ^^^ (state.a &&& state.c) ^^^ (state.b &&& state.c)
  let first :=
    state.h + (rotate state.e 6 ^^^ rotate state.e 11 ^^^ rotate state.e 25) +
      choice + constant + word
  let second :=
    (rotate state.a 2 ^^^ rotate state.a 13 ^^^ rotate state.a 22) + majority
  { a := first + second, b := state.a, c := state.b, d := state.c,
    e := state.d + first, f := state.e, g := state.f, h := state.g }

/-- The state after a block. -/
def compress (state : State) (block : List UInt32) : State :=
  let mixed := (roundConstants.zip (schedule block)).foldl
    (fun current (constant, word) => round current constant word) state
  state.add mixed

/-- The digest of a byte string. -/
def digest (message : List UInt8) : List UInt8 :=
  ((blocks (pad message)).foldl compress State.initial).words.flatMap
    bytesOfWord

/-- The two hexadecimal digits of a byte. -/
def hexOfByte (byte : UInt8) : List Char :=
  let digit (value : Nat) := "0123456789abcdef".toList.getD value '0'
  [digit (byte.toNat / 16), digit (byte.toNat % 16)]

/-- The digest of a text in hexadecimal digits. -/
def hexDigest (text : String) : String :=
  String.ofList ((digest text.toUTF8.toList).flatMap hexOfByte)

end Sha256

end SparseLoop
