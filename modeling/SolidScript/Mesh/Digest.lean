import SolidScript.Mesh.Bytes

/-!
# Digests

The SHA-256 digest of bytes, and that of the content of a mesh. Messages are padded with a one bit,
zeros and their length to whole blocks of 64 bytes, and each block is mixed into eight words in 64
rounds.
-/

namespace SolidScript

namespace Sha256

/-- The words that the rounds add: fractional parts of the cube roots of the first 64 primes. -/
def roundWords : List UInt32 := [
  0x428a2f98, 0x71374491, 0xb5c0fbcf, 0xe9b5dba5, 0x3956c25b, 0x59f111f1, 0x923f82a4, 0xab1c5ed5,
  0xd807aa98, 0x12835b01, 0x243185be, 0x550c7dc3, 0x72be5d74, 0x80deb1fe, 0x9bdc06a7, 0xc19bf174,
  0xe49b69c1, 0xefbe4786, 0x0fc19dc6, 0x240ca1cc, 0x2de92c6f, 0x4a7484aa, 0x5cb0a9dc, 0x76f988da,
  0x983e5152, 0xa831c66d, 0xb00327c8, 0xbf597fc7, 0xc6e00bf3, 0xd5a79147, 0x06ca6351, 0x14292967,
  0x27b70a85, 0x2e1b2138, 0x4d2c6dfc, 0x53380d13, 0x650a7354, 0x766a0abb, 0x81c2c92e, 0x92722c85,
  0xa2bfe8a1, 0xa81a664b, 0xc24b8b70, 0xc76c51a3, 0xd192e819, 0xd6990624, 0xf40e3585, 0x106aa070,
  0x19a4c116, 0x1e376c08, 0x2748774c, 0x34b0bcb5, 0x391c0cb3, 0x4ed8aa4a, 0x5b9cca4f, 0x682e6ff3,
  0x748f82ee, 0x78a5636f, 0x84c87814, 0x8cc70208, 0x90befffa, 0xa4506ceb, 0xbef9a3f7, 0xc67178f2]

structure State where
  a : UInt32
  b : UInt32
  c : UInt32
  d : UInt32
  e : UInt32
  f : UInt32
  g : UInt32
  h : UInt32

/-- Fractional parts of the square roots of the first eight primes. -/
def State.initial : State :=
  ⟨0x6a09e667, 0xbb67ae85, 0x3c6ef372, 0xa54ff53a, 0x510e527f, 0x9b05688c, 0x1f83d9ab, 0x5be0cd19⟩

@[inline] def rotate (x : UInt32) (n : UInt32) : UInt32 := (x >>> n) ||| (x <<< (32 - n))

/-- One round with a round word and a word of the schedule. -/
@[inline] def State.round (s : State) (k w : UInt32) : State :=
  let s1 := rotate s.e 6 ^^^ rotate s.e 11 ^^^ rotate s.e 25
  let choice := (s.e &&& s.f) ^^^ (~~~s.e &&& s.g)
  let t1 := s.h + s1 + choice + k + w
  let s0 := rotate s.a 2 ^^^ rotate s.a 13 ^^^ rotate s.a 22
  let majority := (s.a &&& s.b) ^^^ (s.a &&& s.c) ^^^ (s.b &&& s.c)
  ⟨t1 + (s0 + majority), s.a, s.b, s.c, s.d + t1, s.e, s.f, s.g⟩

def State.add (s t : State) : State :=
  ⟨s.a + t.a, s.b + t.b, s.c + t.c, s.d + t.d, s.e + t.e, s.f + t.f, s.g + t.g, s.h + t.h⟩

def State.words (s : State) : List UInt32 := [s.a, s.b, s.c, s.d, s.e, s.f, s.g, s.h]

/-- How many zeros fill up a message of a length so that the length itself ends a block. -/
def zeros (size : Nat) : Nat := (55 + 64 - size % 64) % 64

def pushBig (out : ByteArray) : (n : Nat) → Nat → ByteArray
  | 0, _ => out
  | n + 1, x => pushBig (out.push (x >>> (8 * n)).toUInt8) n x

def pad (message : ByteArray) : ByteArray :=
  let out := message.push 0x80
  let out := (List.range (zeros message.size)).foldl (fun out _ => out.push 0) out
  pushBig out 8 (8 * message.size)

/-- The word of four bytes from a place on. -/
@[inline] def wordAt (bytes : ByteArray) (i : Nat) : UInt32 :=
  let byte (j : Nat) : UInt32 := (bytes.get! (i + j)).toUInt32
  (byte 0 <<< 24) ||| (byte 1 <<< 16) ||| (byte 2 <<< 8) ||| byte 3

/-- One more word of the schedule from those before it. -/
def extend (w : Array UInt32) : Array UInt32 :=
  let back (n : Nat) : UInt32 := w.getD (w.size - n) 0
  let x := back 15
  let y := back 2
  let s0 := rotate x 7 ^^^ rotate x 18 ^^^ (x >>> 3)
  let s1 := rotate y 17 ^^^ rotate y 19 ^^^ (y >>> 10)
  w.push (back 16 + s0 + back 7 + s1)

/-- The words of the rounds for the block that starts at a place. -/
def schedule (bytes : ByteArray) (start : Nat) : Array UInt32 :=
  let words := (List.range 16).foldl (fun w i => w.push (wordAt bytes (start + 4 * i)))
    (Array.emptyWithCapacity 64)
  (List.range 48).foldl (fun w _ => extend w) words

def compress (bytes : ByteArray) (s : State) (block : Nat) : State :=
  let w := schedule bytes (64 * block)
  s.add (roundWords.foldl (fun (t, i) k => (t.round k (w.getD i 0), i + 1)) (s, 0)).1

def run (message : ByteArray) : State :=
  let bytes := pad message
  (List.range (bytes.size / 64)).foldl (compress bytes) .initial

end Sha256

namespace Bytes

def hexByte (b : UInt8) : List Char := [Nat.digitChar (b.toNat / 16), Nat.digitChar (b.toNat % 16)]

def hex (bytes : ByteArray) : String := String.ofList (bytes.toList.flatMap hexByte)

end Bytes

def sha256 (bytes : ByteArray) : String :=
  Bytes.hex ((Sha256.run bytes).words.foldl (fun out w => Sha256.pushBig out 4 w.toNat)
    ByteArray.empty)

def Mesh.digest (m : Mesh Float) : String := sha256 m.content

end SolidScript
