import DidVault.Address
import DidVault.Rsa.Arithmetic
import DidVault.Rsa.Der
import DidVault.Rsa.Pem
import DidVault.Text.Utf8

/-!
# RSA keys

A private key is the numbers `n`, `e`, `d` and two primes; the rest of its
encoding is computed from them, and is passed over when it is read.  A pair of
keys is kept as its two PEM texts: these are what is stored and published, and
`KeyPair.ofPrivatePem` writes them always in the same way.
-/

namespace DidVault

/-- The numbers of a private key. -/
structure PrivateKey where
  modulus : Nat
  publicExponent : Nat
  privateExponent : Nat
  prime1 : Nat
  prime2 : Nat
  deriving Repr, DecidableEq, Inhabited

/-- A pair of keys, as PEM texts. -/
structure KeyPair where
  privatePem : String
  publicPem : String
  deriving Repr, DecidableEq, Inhabited

namespace Rsa

/-- The greatest number of bits that the modulus of a key may have that is read
as a public key. -/
def maxPublicBits : Nat := 4096

/-- The greatest public exponent. -/
def maxPublicExponent : Nat := Nat.pow 2 33 - 1

/-- The label of a private key. -/
def privateLabel : String := "RSA PRIVATE KEY"

/-- The label of a public key. -/
def publicLabel : String := "PUBLIC KEY"

/-- Whether two numbers can be a modulus and a public exponent. -/
def validPublic (n e : Nat) : Bool :=
  e < n && n % 2 == 1 && e % 2 == 1 && 2 ≤ e && e ≤ maxPublicExponent

/-- The encoded name of the algorithm, which has no parameters. -/
def algorithm : Bytes :=
  [0x30, 0x0d, 0x06, 0x09, 0x2a, 0x86, 0x48, 0x86, 0xf7, 0x0d, 0x01, 0x01, 0x01,
    0x05, 0x00]

/-- The encoding of a public key. -/
def encodePublic (n e : Nat) : Bytes :=
  Der.sequence
    [algorithm, Der.element Der.bitsTag
      (0 :: Der.sequence [Der.number n, Der.number e])]

/-- Reads the modulus and the exponent of an encoded public key. -/
def decodePublic (bytes : Bytes) : Option (Nat × Nat) :=
  match Der.readElement Der.sequenceTag bytes with
  | some (contents, []) =>
    if contents.take algorithm.length = algorithm then
      match Der.readElement Der.bitsTag (contents.drop algorithm.length) with
      | some (0 :: key, []) =>
        match Der.readNumberSequence 2 key with
        | some [n, e] =>
          if n < Nat.pow 2 maxPublicBits ∧
            validPublic n e then some (n, e) else none
        | _ => none
      | _ => none
    else none
  | _ => none

/-- Whether a text is the PEM of a public key. -/
def isPublicPem (pem : String) : Bool :=
  match Pem.parse publicLabel pem with
  | some bytes => (decodePublic bytes).isSome
  | none => false

end Rsa

namespace PrivateKey

/-- Whether the numbers of a private key belong together. -/
def valid (k : PrivateKey) : Bool :=
  let product := k.privateExponent * k.publicExponent
  Rsa.validPublic k.modulus k.publicExponent && 1 < k.prime1 && 1 < k.prime2
    && k.prime1 * k.prime2 == k.modulus
    && product % (k.prime1 - 1) == 1 % (k.prime1 - 1)
    && product % (k.prime2 - 1) == 1 % (k.prime2 - 1)

/-- The encoding of a private key, if the second prime has an inverse modulo the
first. -/
def encode (k : PrivateKey) : Option Bytes :=
  (Rsa.inverseMod? k.prime2 k.prime1).map fun coefficient =>
    Der.sequence
      [Der.number 0, Der.number k.modulus, Der.number k.publicExponent,
       Der.number k.privateExponent, Der.number k.prime1, Der.number k.prime2,
       Der.number (k.privateExponent % (k.prime1 - 1)),
       Der.number (k.privateExponent % (k.prime2 - 1)), Der.number coefficient]

/-- Reads an encoded private key. -/
def decode (bytes : Bytes) : Option PrivateKey :=
  match Der.readNumberSequence 9 bytes with
  | some [version, n, e, d, p, q, _, _, _] =>
    let k : PrivateKey := ⟨n, e, d, p, q⟩
    if version = 0 ∧ k.valid then some k else none
  | _ => none

/-- The PEM texts of a private key and its public half. -/
def toPair (k : PrivateKey) : Option KeyPair :=
  k.encode.map fun bytes =>
    ⟨Pem.render Rsa.privateLabel bytes,
     Pem.render Rsa.publicLabel (Rsa.encodePublic k.modulus k.publicExponent)⟩

end PrivateKey

namespace KeyPair

/-- The pair of a private key in PEM. -/
def ofPrivatePem (pem : String) : Option KeyPair := do
  let bytes ← Pem.parse Rsa.privateLabel pem
  let key ← PrivateKey.decode bytes
  key.toPair

/-- The hash of the public key. -/
def hash (pair : KeyPair) : String :=
  Address.keyHash (Utf8.encode pair.publicPem)

/-- Two pairs are the same if their public keys are. -/
def sameAs (a b : KeyPair) : Bool :=
  a.publicPem == b.publicPem

/-- What may be shown of a pair. -/
def shown (pair : KeyPair) : String :=
  "RsaKeyPair(pub=" ++ pair.hash ++ ")"

end KeyPair

end DidVault
