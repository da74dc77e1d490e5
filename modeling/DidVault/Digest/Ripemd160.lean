import DidVault.Digest.Words

/-!
# RIPEMD-160

Two lines of eighty steps run side by side over each block of sixty-four bytes.
They differ in the order in which they take the words of the block, in their
rotations, constants and functions, and their results are added crosswise into
the state of five words.
-/

namespace DidVault.Ripemd160

open Digest

/-- The five working words. -/
structure State where
  a : UInt32
  b : UInt32
  c : UInt32
  d : UInt32
  e : UInt32
  deriving Repr, DecidableEq, Inhabited

/-- The state before the first block. -/
def State.initial : State :=
  ⟨0x67452301, 0xefcdab89, 0x98badcfe, 0x10325476, 0xc3d2e1f0⟩

/-- The five bitwise functions. -/
inductive Mixer where
  | parity
  | choose
  | orNot
  | chooseBack
  | notOr
  deriving Repr, DecidableEq

/-- The value of a bitwise function. -/
def Mixer.apply (m : Mixer) (x y z : UInt32) : UInt32 :=
  match m with
  | .parity => x ^^^ y ^^^ z
  | .choose => (x &&& y) ||| (~~~x &&& z)
  | .orNot => (x ||| ~~~y) ^^^ z
  | .chooseBack => (x &&& z) ||| (y &&& ~~~z)
  | .notOr => x ^^^ (y ||| ~~~z)

/-- Sixteen steps of one line: the function and constant they share, and for
each step the word it takes and the bits it rotates by. -/
structure Pass where
  mixer : Mixer
  constant : UInt32
  steps : List (Nat × UInt32)

/-- One step of a line. -/
def State.step (s : State) (mixer : Mixer) (constant word bits : UInt32) :
    State :=
  let t := rotateLeft32 (s.a + mixer.apply s.b s.c s.d + word + constant) bits
    + s.e
  ⟨s.e, t, s.b, rotateLeft32 s.c 10, s.d⟩

/-- Sixteen steps over the words of a block. -/
def State.pass (words : Array UInt32) (s : State) (p : Pass) : State :=
  p.steps.foldl
    (fun s (index, bits) =>
      s.step p.mixer p.constant (words.getD index 0) bits) s

/-- The passes of the left line. -/
def leftLine : List Pass :=
  [⟨.parity, 0x00000000,
      List.zip [0, 1, 2, 3, 4, 5, 6, 7, 8, 9, 10, 11, 12, 13, 14, 15]
        [11, 14, 15, 12, 5, 8, 7, 9, 11, 13, 14, 15, 6, 7, 9, 8]⟩,
   ⟨.choose, 0x5a827999,
      List.zip [7, 4, 13, 1, 10, 6, 15, 3, 12, 0, 9, 5, 2, 14, 11, 8]
        [7, 6, 8, 13, 11, 9, 7, 15, 7, 12, 15, 9, 11, 7, 13, 12]⟩,
   ⟨.orNot, 0x6ed9eba1,
      List.zip [3, 10, 14, 4, 9, 15, 8, 1, 2, 7, 0, 6, 13, 11, 5, 12]
        [11, 13, 6, 7, 14, 9, 13, 15, 14, 8, 13, 6, 5, 12, 7, 5]⟩,
   ⟨.chooseBack, 0x8f1bbcdc,
      List.zip [1, 9, 11, 10, 0, 8, 12, 4, 13, 3, 7, 15, 14, 5, 6, 2]
        [11, 12, 14, 15, 14, 15, 9, 8, 9, 14, 5, 6, 8, 6, 5, 12]⟩,
   ⟨.notOr, 0xa953fd4e,
      List.zip [4, 0, 5, 9, 7, 12, 2, 10, 14, 1, 3, 8, 11, 6, 15, 13]
        [9, 15, 5, 11, 6, 8, 13, 12, 5, 12, 13, 14, 11, 8, 5, 6]⟩]

/-- The passes of the right line. -/
def rightLine : List Pass :=
  [⟨.notOr, 0x50a28be6,
      List.zip [5, 14, 7, 0, 9, 2, 11, 4, 13, 6, 15, 8, 1, 10, 3, 12]
        [8, 9, 9, 11, 13, 15, 15, 5, 7, 7, 8, 11, 14, 14, 12, 6]⟩,
   ⟨.chooseBack, 0x5c4dd124,
      List.zip [6, 11, 3, 7, 0, 13, 5, 10, 14, 15, 8, 12, 4, 9, 1, 2]
        [9, 13, 15, 7, 12, 8, 9, 11, 7, 7, 12, 7, 6, 15, 13, 11]⟩,
   ⟨.orNot, 0x6d703ef3,
      List.zip [15, 5, 1, 3, 7, 14, 6, 9, 11, 8, 12, 2, 10, 0, 4, 13]
        [9, 7, 15, 11, 8, 6, 6, 14, 12, 13, 5, 14, 13, 13, 7, 5]⟩,
   ⟨.choose, 0x7a6d76e9,
      List.zip [8, 6, 4, 1, 3, 11, 15, 0, 5, 12, 2, 13, 9, 7, 10, 14]
        [15, 5, 8, 11, 14, 14, 6, 14, 6, 9, 12, 9, 12, 5, 15, 8]⟩,
   ⟨.parity, 0x00000000,
      List.zip [12, 15, 10, 4, 1, 5, 8, 7, 6, 2, 13, 14, 0, 3, 9, 11]
        [8, 5, 12, 9, 12, 5, 14, 6, 8, 13, 6, 5, 15, 13, 11, 11]⟩]

/-- Stirs one block into a state. -/
def State.compress (s : State) (block : Bytes) : State :=
  let words := (littleWords32 block).toArray
  let left := leftLine.foldl (State.pass words) s
  let right := rightLine.foldl (State.pass words) s
  ⟨s.b + left.c + right.d, s.c + left.d + right.e, s.d + left.e + right.a,
   s.e + left.a + right.b, s.a + left.b + right.c⟩

/-- The twenty bytes of a state. -/
def State.toBytes (s : State) : Bytes :=
  [s.a, s.b, s.c, s.d, s.e].flatMap littleBytes32

/-- The RIPEMD-160 digest of a byte string. -/
def hash (message : Bytes) : Bytes :=
  let padded := terminated (fun n => (Bytes.ofNatWide 8 n).reverse) 0 message
  ((Bytes.blocks blockLength blockLength_pos padded).foldl State.compress
    State.initial).toBytes

/-- A digest has 20 bytes. -/
theorem length_hash (message : Bytes) : (hash message).length = 20 := rfl

end DidVault.Ripemd160
