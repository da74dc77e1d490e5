import DidVault.Digest.Sha256
import DidVault.Rsa.Key

/-!
# Making RSA keys

A pair is made from a seed: the seed is stretched to as many bytes as the search
for two primes takes.  The modulus has exactly the number of bits that was asked
for.
-/

namespace DidVault

/-- Why no pair of keys can be made. -/
inductive GenerationFault where
  | tooFewPrimes
  | invalidModulus
  | exhausted
  deriving Repr, DecidableEq

/-- The words of a fault. -/
def GenerationFault.message : GenerationFault → String
  | tooFewPrimes => "too few primes of given length to generate an RSA key"
  | invalidModulus => "invalid modulus"
  | exhausted => "no prime was found"

namespace Rsa

/-- The public exponent of every pair that is made. -/
def publicExponent : Nat := 65537

/-- The first `count` blocks of the stream of a seed, from block `index` on. -/
def stream (seed : Bytes) : Nat → Nat → Bytes
  | 0, _ => []
  | count + 1, index =>
    Sha256.hash (seed ++ Bytes.ofNatWide 8 index) ++ stream seed count
      (index + 1)

/-- An odd number of `bits` bits, of which the first two are set, from place
`index` of a stream. -/
def candidate (seed : Bytes) (bits index : Nat) : Nat :=
  let random :=
    Bytes.toNat (stream seed (bits / 256 + 1) (index * (bits / 256 + 1)))
  random % Nat.pow 2 (bits - 2) + 3 * Nat.pow 2 (bits - 2) ||| 1

/-- The first prime among the candidates from place `index` on, and the place
behind it. -/
def findPrime (seed : Bytes) (bits : Nat) : Nat → Nat → Option (Nat × Nat)
  | 0, _ => none
  | fuel + 1, index =>
    let n := candidate seed bits index
    if isPrime n then some (n, index + 1) else findPrime seed bits fuel
      (index + 1)

/-- The private key of two primes. -/
def keyOfPrimes (p q : Nat) : Option PrivateKey :=
  (inverseMod? publicExponent ((p - 1) * (q - 1))).map fun d =>
    ⟨p * q, publicExponent, d, p, q⟩

/-- Looks for two primes that make a modulus of `bits` bits. -/
def findPair (seed : Bytes) (bits : Nat) : Nat → Nat → Option KeyPair
  | 0, _ => none
  | fuel + 1, index =>
    match findPrime seed (bits / 2) (100 * bits) index with
    | none => none
    | some (p, index) =>
      match findPrime seed (bits - bits / 2) (100 * bits) index with
      | none => none
      | some (q, index) =>
        if p ≠ q ∧ (p * q).log2 + 1 = bits then
          match (keyOfPrimes p q).bind PrivateKey.toPair with
          | some pair => some pair
          | none => findPair seed bits fuel index
        else findPair seed bits fuel index

/-- Makes a pair of keys of `bits` bits from a seed. -/
def generate (bits : Nat) (seed : Bytes) : Except GenerationFault KeyPair :=
  if bits < 12 then .error .tooFewPrimes
  else if bits < 17 then .error .invalidModulus
  else
    match findPair seed bits 100 0 with
    | some pair => .ok pair
    | none => .error .exhausted

end Rsa

end DidVault
