import Cuac.Lib.Wire

/-!
# Connector — content digests

`ComputeSha256Hex`. The blocks of the padded message are compressed into a state of
eight words, and the state is written in hexadecimal.
-/

namespace Cuac.Connector.ContentDigest

open Cuac.Lib

def rotateRight (value : UInt32) (amount : UInt32) : UInt32 :=
  (value >>> amount) ||| (value <<< (32 - amount))

def constants : List UInt32 := [
  0x428a2f98, 0x71374491, 0xb5c0fbcf, 0xe9b5dba5, 0x3956c25b, 0x59f111f1, 0x923f82a4, 0xab1c5ed5,
  0xd807aa98, 0x12835b01, 0x243185be, 0x550c7dc3, 0x72be5d74, 0x80deb1fe, 0x9bdc06a7, 0xc19bf174,
  0xe49b69c1, 0xefbe4786, 0x0fc19dc6, 0x240ca1cc, 0x2de92c6f, 0x4a7484aa, 0x5cb0a9dc, 0x76f988da,
  0x983e5152, 0xa831c66d, 0xb00327c8, 0xbf597fc7, 0xc6e00bf3, 0xd5a79147, 0x06ca6351, 0x14292967,
  0x27b70a85, 0x2e1b2138, 0x4d2c6dfc, 0x53380d13, 0x650a7354, 0x766a0abb, 0x81c2c92e, 0x92722c85,
  0xa2bfe8a1, 0xa81a664b, 0xc24b8b70, 0xc76c51a3, 0xd192e819, 0xd6990624, 0xf40e3585, 0x106aa070,
  0x19a4c116, 0x1e376c08, 0x2748774c, 0x34b0bcb5, 0x391c0cb3, 0x4ed8aa4a, 0x5b9cca4f, 0x682e6ff3,
  0x748f82ee, 0x78a5636f, 0x84c87814, 0x8cc70208, 0x90befffa, 0xa4506ceb, 0xbef9a3f7, 0xc67178f2]

/-- The eight words `a` to `h`. -/
structure State where
  a : UInt32
  b : UInt32
  c : UInt32
  d : UInt32
  e : UInt32
  f : UInt32
  g : UInt32
  h : UInt32
  deriving DecidableEq, Repr

def State.initial : State :=
  ⟨0x6a09e667, 0xbb67ae85, 0x3c6ef372, 0xa54ff53a, 0x510e527f, 0x9b05688c, 0x1f83d9ab, 0x5be0cd19⟩

/-- The message, a one bit, zeros up to eight bytes before the end of a block, and the
length in bits as a 64-bit number. -/
def pad (input : Bytes) : Bytes :=
  let zeros := (55 + 64 - input.length % 64) % 64
  input ++ 0x80 :: List.replicate zeros 0 ++ bigEndian 8 (input.length * 8)

/-- The sixteen words of a block, each from four bytes. -/
def blockWords : Bytes → List UInt32
  | b₀ :: b₁ :: b₂ :: b₃ :: rest =>
    (b₀.toUInt32 <<< 24 ||| b₁.toUInt32 <<< 16 ||| b₂.toUInt32 <<< 8 ||| b₃.toUInt32) ::
      blockWords rest
  | _ => []

/-- The message schedule, the latest word first. -/
def extendWords : Nat → List UInt32 → List UInt32
  | 0, words => words
  | count + 1, words =>
    let older := words.getD 14 0
    let newer := words.getD 1 0
    let s0 := rotateRight older 7 ^^^ rotateRight older 18 ^^^ (older >>> 3)
    let s1 := rotateRight newer 17 ^^^ rotateRight newer 19 ^^^ (newer >>> 10)
    extendWords count ((words.getD 15 0 + s0 + words.getD 6 0 + s1) :: words)

def schedule (block : Bytes) : List UInt32 :=
  (extendWords 48 (blockWords block).reverse).reverse

/-- One round, with its constant and its word of the schedule. -/
def round (s : State) (step : UInt32 × UInt32) : State :=
  let s1 := rotateRight s.e 6 ^^^ rotateRight s.e 11 ^^^ rotateRight s.e 25
  let choice := (s.e &&& s.f) ^^^ (~~~s.e &&& s.g)
  let temp1 := s.h + s1 + choice + step.1 + step.2
  let s0 := rotateRight s.a 2 ^^^ rotateRight s.a 13 ^^^ rotateRight s.a 22
  let majority := (s.a &&& s.b) ^^^ (s.a &&& s.c) ^^^ (s.b &&& s.c)
  let temp2 := s0 + majority
  ⟨temp1 + temp2, s.a, s.b, s.c, s.d + temp1, s.e, s.f, s.g⟩

def compress (state : State) (block : Bytes) : State :=
  let s := (constants.zip (schedule block)).foldl round state
  ⟨state.a + s.a, state.b + s.b, state.c + s.c, state.d + s.d, state.e + s.e, state.f + s.f,
    state.g + s.g, state.h + s.h⟩

/-- The loop over the blocks of the message. -/
def compressAll : Nat → State → Bytes → State
  | 0, state, _ => state
  | blocks + 1, state, message =>
    compressAll blocks (compress state (message.take 64)) (message.drop 64)

def hexDigit (value : UInt32) : UInt8 :=
  if value < 10 then byte '0' + value.toUInt8 else byte 'a' + (value.toUInt8 - 10)

/-- Eight lowercase hexadecimal digits. -/
def wordHex (value : UInt32) : Bytes :=
  ([28, 24, 20, 16, 12, 8, 4, 0] : List UInt32).map fun shift => hexDigit ((value >>> shift) &&& 0xF)

def computeSha256Hex (input : Bytes) : Bytes :=
  let message := pad input
  let state := compressAll (message.length / 64) .initial message
  [state.a, state.b, state.c, state.d, state.e, state.f, state.g, state.h].flatMap wordHex

example : computeSha256Hex (ascii "abc") =
    ascii "ba7816bf8f01cfea414140de5dae2223b00361a396177a9cb410ff61f20015ad" := by
  decide +kernel

end Cuac.Connector.ContentDigest
