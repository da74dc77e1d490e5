import DidVault.Bytes

/-!
# Machine words in byte strings

Digests work on words.  A word of several bytes stands in a byte string with its
most significant byte first (*big-endian*) or last (*little-endian*).

* `bigWords32`, `littleWords32`, `littleWords64` read the words of a byte
  string, and leave a beginning of a word at its end unread;
* `bigBytes32`, `littleBytes32`, `littleBytes64` write one word;
* `terminated` closes a message with a one bit, zeros and its length, so that it
  fills blocks of sixty-four bytes.
-/

namespace DidVault.Digest

/-- Rotates a word to the left by `n` bits, for `n` below thirty-two. -/
def rotateLeft32 (x n : UInt32) : UInt32 :=
  (x <<< n) ||| (x >>> (32 - n))

/-- Rotates a word to the right by `n` bits, for `n` below thirty-two. -/
def rotateRight32 (x n : UInt32) : UInt32 :=
  (x >>> n) ||| (x <<< (32 - n))

/-- Rotates a word to the left by `n` bits, for `n` below sixty-four. -/
def rotateLeft64 (x n : UInt64) : UInt64 :=
  (x <<< n) ||| (x >>> (64 - n))

/-- The word of four bytes, most significant first. -/
def word32 (a b c d : UInt8) : UInt32 :=
  (a.toUInt32 <<< 24) ||| (b.toUInt32 <<< 16) |||
    (c.toUInt32 <<< 8) ||| d.toUInt32

/-- The big-endian words of a byte string. -/
def bigWords32 : Bytes → List UInt32
  | a :: b :: c :: d :: rest => word32 a b c d :: bigWords32 rest
  | _ => []

/-- The little-endian words of a byte string. -/
def littleWords32 : Bytes → List UInt32
  | a :: b :: c :: d :: rest => word32 d c b a :: littleWords32 rest
  | _ => []

/-- The little-endian double words of a byte string. -/
def littleWords64 : Bytes → List UInt64
  | a :: b :: c :: d :: e :: f :: g :: h :: rest =>
    (((word32 h g f e).toUInt64 <<< 32) ||| (word32 d c b a).toUInt64) ::
      littleWords64 rest
  | _ => []

/-- The four bytes of a word, most significant first. -/
def bigBytes32 (x : UInt32) : Bytes :=
  [(x >>> 24).toUInt8, (x >>> 16).toUInt8, (x >>> 8).toUInt8, x.toUInt8]

/-- The four bytes of a word, least significant first. -/
def littleBytes32 (x : UInt32) : Bytes :=
  [x.toUInt8, (x >>> 8).toUInt8, (x >>> 16).toUInt8, (x >>> 24).toUInt8]

/-- The eight bytes of a double word, least significant first. -/
def littleBytes64 (x : UInt64) : Bytes :=
  littleBytes32 x.toUInt32 ++ littleBytes32 (x >>> 32).toUInt32

/-- How many bytes a block of SHA-256 and of RIPEMD-160 has. -/
def blockLength : Nat := 64

theorem blockLength_pos : 0 < blockLength := by decide

/-- How many zero bytes bring `n` bytes, a one byte and eight bytes of length to
whole blocks of sixty-four. -/
def zerosAfter (n : Nat) : Nat :=
  (119 - n % 64) % 64

/-- The end of a message whose blocks before it hold `before` bytes, closed by a
one bit, zeros and the eight bytes that `writeLength` makes of the number of
bits. -/
def terminated (writeLength : Nat → Bytes) (before : Nat) (message : Bytes) :
    Bytes :=
  message ++ 0x80 :: (List.replicate (zerosAfter message.length) 0
    ++ writeLength (8 * (before + message.length)))

end DidVault.Digest
