import DidVault.Digest.Words

/-!
# SHA3-256

A sponge over five rows of five lanes.  Blocks of one hundred and thirty-six
bytes are added into the first seventeen lanes, with a permutation of
twenty-four rounds after each; the digest is the first four lanes.
-/

namespace DidVault.Sha3

open Digest

/-- Five lanes. -/
structure Row where
  a : UInt64
  b : UInt64
  c : UInt64
  d : UInt64
  e : UInt64
  deriving Repr, DecidableEq, Inhabited

/-- The state of the sponge: five rows. -/
structure State where
  r0 : Row
  r1 : Row
  r2 : Row
  r3 : Row
  r4 : Row
  deriving Repr, DecidableEq, Inhabited

/-- A row of zero lanes. -/
def Row.zero : Row := ⟨0, 0, 0, 0, 0⟩

/-- The state before the first block. -/
def State.zero : State := ⟨.zero, .zero, .zero, .zero, .zero⟩

/-- The exclusive or of two rows. -/
def Row.xor (r s : Row) : Row :=
  ⟨r.a ^^^ s.a, r.b ^^^ s.b, r.c ^^^ s.c, r.d ^^^ s.d, r.e ^^^ s.e⟩

/-- The exclusive or of two states. -/
def State.xor (s t : State) : State :=
  ⟨s.r0.xor t.r0, s.r1.xor t.r1, s.r2.xor t.r2, s.r3.xor t.r3, s.r4.xor t.r4⟩

/-- Adds to every lane the parities of the two columns beside it. -/
def State.mixColumns (s : State) : State :=
  let c := (((s.r0.xor s.r1).xor s.r2).xor s.r3).xor s.r4
  let d : Row :=
    ⟨c.e ^^^ rotateLeft64 c.b 1, c.a ^^^ rotateLeft64 c.c 1,
      c.b ^^^ rotateLeft64 c.d 1,
     c.c ^^^ rotateLeft64 c.e 1, c.d ^^^ rotateLeft64 c.a 1⟩
  ⟨s.r0.xor d, s.r1.xor d, s.r2.xor d, s.r3.xor d, s.r4.xor d⟩

/-- Rotates every lane by its own amount and moves it to its next place. -/
def State.moveLanes (s : State) : State :=
  ⟨⟨s.r0.a, rotateLeft64 s.r1.b 44, rotateLeft64 s.r2.c 43,
      rotateLeft64 s.r3.d 21, rotateLeft64 s.r4.e 14⟩,
   ⟨rotateLeft64 s.r0.d 28, rotateLeft64 s.r1.e 20, rotateLeft64 s.r2.a 3,
      rotateLeft64 s.r3.b 45, rotateLeft64 s.r4.c 61⟩,
   ⟨rotateLeft64 s.r0.b 1, rotateLeft64 s.r1.c 6, rotateLeft64 s.r2.d 25,
      rotateLeft64 s.r3.e 8, rotateLeft64 s.r4.a 18⟩,
   ⟨rotateLeft64 s.r0.e 27, rotateLeft64 s.r1.a 36, rotateLeft64 s.r2.b 10,
      rotateLeft64 s.r3.c 15, rotateLeft64 s.r4.d 56⟩,
   ⟨rotateLeft64 s.r0.c 62, rotateLeft64 s.r1.d 55, rotateLeft64 s.r2.e 39,
      rotateLeft64 s.r3.a 41, rotateLeft64 s.r4.b 2⟩⟩

/-- Combines every lane with the two that follow it in its row. -/
def Row.combine (r : Row) : Row :=
  ⟨r.a ^^^ (~~~r.b &&& r.c), r.b ^^^ (~~~r.c &&& r.d), r.c ^^^ (~~~r.d &&& r.e),
   r.d ^^^ (~~~r.e &&& r.a), r.e ^^^ (~~~r.a &&& r.b)⟩

/-- One round, with its constant. -/
def State.round (s : State) (constant : UInt64) : State :=
  let s := s.mixColumns.moveLanes
  let r0 := s.r0.combine
  ⟨{ r0 with a := r0.a ^^^ constant }, s.r1.combine, s.r2.combine, s.r3.combine,
    s.r4.combine⟩

/-- The constant of each of the twenty-four rounds. -/
def constants : List UInt64 :=
  [0x0000000000000001, 0x0000000000008082, 0x800000000000808a,
    0x8000000080008000,
   0x000000000000808b, 0x0000000080000001, 0x8000000080008081,
   0x8000000000008009,
   0x000000000000008a, 0x0000000000000088, 0x0000000080008009,
   0x000000008000000a,
   0x000000008000808b, 0x800000000000008b, 0x8000000000008089,
   0x8000000000008003,
   0x8000000000008002, 0x8000000000000080, 0x000000000000800a,
   0x800000008000000a,
   0x8000000080008081, 0x8000000000008080, 0x0000000080000001,
   0x8000000080008008]

/-- The twenty-four rounds. -/
def State.permute (s : State) : State :=
  constants.foldl State.round s

/-- The lanes of one block, in front of lanes that are zero. -/
def blockState (block : Bytes) : State :=
  match littleWords64 block with
  | [a, b, c, d, e, f, g, h, i, j, k, l, m, n, o, p, q] =>
    ⟨⟨a, b, c, d, e⟩, ⟨f, g, h, i, j⟩, ⟨k, l, m, n, o⟩, ⟨p, q, 0, 0, 0⟩, .zero⟩
  | _ => .zero

/-- Adds one block and permutes. -/
def State.absorb (s : State) (block : Bytes) : State :=
  (s.xor (blockState block)).permute

/-- How many bytes a block has. -/
def rate : Nat := 136

theorem rate_pos : 0 < rate := by decide

/-- The bytes behind a message of `n` bytes that fill its last block. -/
def padding (n : Nat) : Bytes :=
  match rate - 1 - n % rate with
  | 0 => [0x86]
  | free + 1 => 0x06 :: (List.replicate free 0 ++ [0x80])

/-- The SHA3-256 digest of a byte string. -/
def hash (message : Bytes) : Bytes :=
  let s :=
    (Bytes.blocks rate rate_pos (message ++ padding message.length)).foldl
      State.absorb State.zero
  [s.r0.a, s.r0.b, s.r0.c, s.r0.d].flatMap littleBytes64

/-- A digest has 32 bytes. -/
theorem length_hash (message : Bytes) : (hash message).length = 32 := rfl

end DidVault.Sha3
