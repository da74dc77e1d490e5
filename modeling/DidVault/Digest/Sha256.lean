import DidVault.Digest.Words

/-!
# SHA-256

A message is closed to whole blocks of sixty-four bytes, and `compress` stirs
one block after the other into a state of eight words.  `finish` starts from any
state, so that a keyed digest can keep the state behind its key.
-/

namespace DidVault.Sha256

open Digest

/-- The eight working words. -/
structure State where
  a : UInt32
  b : UInt32
  c : UInt32
  d : UInt32
  e : UInt32
  f : UInt32
  g : UInt32
  h : UInt32
  deriving Repr, DecidableEq, Inhabited

/-- The state before the first block. -/
def State.initial : State :=
  ⟨0x6a09e667, 0xbb67ae85, 0x3c6ef372, 0xa54ff53a, 0x510e527f, 0x9b05688c,
    0x1f83d9ab, 0x5be0cd19⟩

/-- The constant of each of the sixty-four rounds. -/
def constants : List UInt32 :=
  [0x428a2f98, 0x71374491, 0xb5c0fbcf, 0xe9b5dba5, 0x3956c25b, 0x59f111f1,
    0x923f82a4, 0xab1c5ed5,
   0xd807aa98, 0x12835b01, 0x243185be, 0x550c7dc3, 0x72be5d74, 0x80deb1fe,
   0x9bdc06a7, 0xc19bf174,
   0xe49b69c1, 0xefbe4786, 0x0fc19dc6, 0x240ca1cc, 0x2de92c6f, 0x4a7484aa,
   0x5cb0a9dc, 0x76f988da,
   0x983e5152, 0xa831c66d, 0xb00327c8, 0xbf597fc7, 0xc6e00bf3, 0xd5a79147,
   0x06ca6351, 0x14292967,
   0x27b70a85, 0x2e1b2138, 0x4d2c6dfc, 0x53380d13, 0x650a7354, 0x766a0abb,
   0x81c2c92e, 0x92722c85,
   0xa2bfe8a1, 0xa81a664b, 0xc24b8b70, 0xc76c51a3, 0xd192e819, 0xd6990624,
   0xf40e3585, 0x106aa070,
   0x19a4c116, 0x1e376c08, 0x2748774c, 0x34b0bcb5, 0x391c0cb3, 0x4ed8aa4a,
   0x5b9cca4f, 0x682e6ff3,
   0x748f82ee, 0x78a5636f, 0x84c87814, 0x8cc70208, 0x90befffa, 0xa4506ceb,
   0xbef9a3f7, 0xc67178f2]

/-- Appends `n` words to a schedule, each made of four earlier ones. -/
def extend : Nat → Array UInt32 → Array UInt32
  | 0, words => words
  | n + 1, words =>
    let word (back : Nat) : UInt32 := words.getD (words.size - back) 0
    let x := word 15
    let y := word 2
    let s0 := rotateRight32 x 7 ^^^ rotateRight32 x 18 ^^^ (x >>> 3)
    let s1 := rotateRight32 y 17 ^^^ rotateRight32 y 19 ^^^ (y >>> 10)
    extend n (words.push (word 16 + s0 + word 7 + s1))

/-- The words of the sixty-four rounds for one block. -/
def schedule (block : Bytes) : List UInt32 :=
  (extend 48 (bigWords32 block).toArray).toList

/-- One round, with its constant and its word. -/
def State.round (s : State) (constant word : UInt32) : State :=
  let s1 := rotateRight32 s.e 6 ^^^ rotateRight32 s.e 11 ^^^
    rotateRight32 s.e 25
  let choice := (s.e &&& s.f) ^^^ (~~~s.e &&& s.g)
  let t1 := s.h + s1 + choice + constant + word
  let s0 := rotateRight32 s.a 2 ^^^ rotateRight32 s.a 13 ^^^
    rotateRight32 s.a 22
  let majority := (s.a &&& s.b) ^^^ (s.a &&& s.c) ^^^ (s.b &&& s.c)
  ⟨t1 + (s0 + majority), s.a, s.b, s.c, s.d + t1, s.e, s.f, s.g⟩

/-- The rounds of one block. -/
def State.rounds (s : State) : List UInt32 → List UInt32 → State
  | k :: ks, w :: ws => (s.round k w).rounds ks ws
  | _, _ => s

/-- Adds two states word by word. -/
def State.add (s t : State) : State :=
  ⟨s.a + t.a, s.b + t.b, s.c + t.c, s.d + t.d, s.e + t.e, s.f + t.f,
    s.g + t.g, s.h + t.h⟩

/-- Stirs one block into a state. -/
def State.compress (s : State) (block : Bytes) : State :=
  s.add (s.rounds constants (schedule block))

/-- Stirs a byte string of whole blocks into a state. -/
def State.absorb (s : State) (message : Bytes) : State :=
  (Bytes.blocks blockLength blockLength_pos message).foldl State.compress s

/-- The thirty-two bytes of a state. -/
def State.toBytes (s : State) : Bytes :=
  [s.a, s.b, s.c, s.d, s.e, s.f, s.g, s.h].flatMap bigBytes32

/-- The digest of a message of which `before` bytes, in whole blocks, are
already in the state. -/
def State.finish (s : State) (before : Nat) (message : Bytes) : Bytes :=
  (s.absorb (terminated (Bytes.ofNatWide 8) before message)).toBytes

/-- The SHA-256 digest of a byte string. -/
def hash (message : Bytes) : Bytes :=
  State.initial.finish 0 message

/-- The state has eight words. -/
theorem State.length_toBytes (s : State) : s.toBytes.length = 32 := rfl

/-- The last blocks leave a state of eight words. -/
theorem State.length_finish (s : State) (before : Nat) (message : Bytes) :
    (s.finish before message).length = 32 :=
  State.length_toBytes _

/-- A digest has 32 bytes. -/
theorem length_hash (message : Bytes) : (hash message).length = 32 :=
  State.length_finish _ _ _

end DidVault.Sha256
