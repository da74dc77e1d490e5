import DidVault.Digest.Sha256

/-!
# Keyed digests and key derivation

`Hmac.tag` is the keyed digest over SHA-256, and `Pbkdf2.block` stretches a
password by iterating it.  The key is worked into two states once (`Hmac.Key`),
from which every tag continues.
-/

namespace DidVault

namespace Hmac

/-- The block of sixty-four bytes that stands for a key: a longer key is hashed
first, a shorter one is filled with zeros. -/
def keyBlock (key : Bytes) : Bytes :=
  let key := if key.length ≤ 64 then key else Sha256.hash key
  key ++ List.replicate (64 - key.length) 0

/-- A key, as the states behind its inner and its outer block. -/
structure Key where
  inner : Sha256.State
  outer : Sha256.State
  deriving Repr, DecidableEq, Inhabited

/-- Works a key into its two states. -/
def Key.ofBytes (key : Bytes) : Key where
  inner := Sha256.State.initial.absorb ((keyBlock key).map (· ^^^ 0x36))
  outer := Sha256.State.initial.absorb ((keyBlock key).map (· ^^^ 0x5c))

/-- The keyed digest of a message. -/
def Key.tag (key : Key) (message : Bytes) : Bytes :=
  key.outer.finish 64 (key.inner.finish 64 message)

end Hmac

namespace Pbkdf2

/-- Adds up `n` further tags, each of the one before it. -/
def stretch (key : Hmac.Key) : Nat → Bytes → Bytes → Bytes
  | 0, _, sum => sum
  | n + 1, last, sum =>
    let next := key.tag last
    stretch key n next (Bytes.xor sum next)

/-- The first thirty-two bytes derived from a password and a salt in
`iterations` iterations. -/
def derive (password salt : Bytes) (iterations : Nat) : Bytes :=
  let key := Hmac.Key.ofBytes password
  let first := key.tag (salt ++ [0, 0, 0, 1])
  stretch key (iterations - 1) first first

end Pbkdf2

end DidVault
