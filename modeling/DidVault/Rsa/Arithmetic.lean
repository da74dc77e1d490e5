/-!
# Arithmetic on large numbers

Powers and inverses modulo a number, and a test of primality.
-/

namespace DidVault.Rsa

/-- `base ^ exponent` modulo `m`, times `sum`, for an exponent below
`2 ^ fuel`. -/
def powModOnto (m : Nat) : Nat → Nat → Nat → Nat → Nat
  | 0, _, _, sum => sum % m
  | fuel + 1, base, exponent, sum =>
    if exponent = 0 then sum % m
    else
      powModOnto m fuel (base * base % m) (exponent / 2)
        (if exponent % 2 = 1 then sum * base % m else sum)

/-- `base ^ exponent` modulo `m`. -/
def powMod (base exponent m : Nat) : Nat :=
  powModOnto m (exponent.log2 + 1) (base % m) exponent 1

/-- The steps of the division algorithm on `a` and `b`, with the coefficients of
a fixed number in both: the greatest common divisor and its coefficient. -/
def gcdCoefficient : Nat → Nat → Nat → Int → Int → Nat × Int
  | 0, a, _, x, _ => (a, x)
  | fuel + 1, a, b, x, y =>
    if b = 0 then (a, x) else gcdCoefficient fuel b (a % b) y
      (x - (a / b : Nat) * y)

/-- The number that `a` times is one modulo `m`, if there is one. -/
def inverseMod? (a m : Nat) : Option Nat :=
  let (g, x) := gcdCoefficient (2 * m.log2 + 4) (a % m) m 1 0
  if g = 1 then some (x % m).toNat else none

/-- The primes below one hundred. -/
def smallPrimes : List Nat :=
  [2, 3, 5, 7, 11, 13, 17, 19, 23, 29, 31, 37, 41, 43, 47, 53, 59, 61, 67, 71,
    73, 79, 83, 89, 97]

/-- Whether squaring `x` up to `fuel` times meets `m - 1`. -/
def meetsMinusOne (m : Nat) : Nat → Nat → Bool
  | 0, _ => false
  | fuel + 1, x => x == m - 1 || meetsMinusOne m fuel (x * x % m)

/-- How often two divides a number below `2 ^ fuel`, and what is left. -/
def splitTwos : Nat → Nat → Nat × Nat
  | 0, n => (0, n)
  | fuel + 1, n =>
    if n % 2 = 0 then
      let (count, odd) := splitTwos fuel (n / 2)
      (count + 1, odd)
    else (0, n)

/-- Whether `base` does not show that the odd number `m` is composite. -/
def passes (m base : Nat) : Bool :=
  let (twos, odd) := splitTwos (m.log2 + 1) (m - 1)
  let x := powMod base odd m
  x == 1 || meetsMinusOne m twos x

/-- Whether a number is taken for a prime: no small prime divides it and none
shows that it is composite. -/
def isPrime (m : Nat) : Bool :=
  if m < 2 then false
  else if smallPrimes.contains m then true
  else (smallPrimes.all fun p => m % p != 0) && smallPrimes.all (passes m)

end DidVault.Rsa
