import DidVault.Json.Decimal

/-!
# Finite binary fractions

A `Double` is a binary fraction in the sixty-four-bit format: a sign, eleven
bits of exponent and fifty-two bits of fraction.  A `Single` is one in the
thirty-two-bit format, with eight bits of exponent and twenty-three bits of
fraction; `Single.toDouble` widens it, which is exact.  Everything here is exact
arithmetic on natural numbers:

* `Double.ofDecimal` rounds a decimal number to the nearest double, ties to the
  even one;
* `shortest` finds the fewest decimal digits that round to a given fraction, and
  among those of that length the nearest.
-/

namespace DidVault

/-- A binary fraction of sixty-four bits. -/
structure Double where
  bits : UInt64
  deriving Repr, DecidableEq, Inhabited

namespace Double

/-- Whether the sign bit is set. -/
def negative (x : Double) : Bool :=
  x.bits >>> 63 == 1

/-- The eleven bits of exponent. -/
def exponentField (x : Double) : Nat :=
  ((x.bits >>> 52) &&& 0x7ff).toNat

/-- The fifty-two bits of fraction. -/
def fraction (x : Double) : Nat :=
  (x.bits &&& 0xfffffffffffff).toNat

/-- Whether a double is neither infinite nor undefined. -/
def isFinite (x : Double) : Bool :=
  x.exponentField < 2047

/-- The significand: with `scale`, the absolute value is
`significand * 2 ^ scale / 2 ^ 1074`. -/
def significand (x : Double) : Nat :=
  if x.exponentField = 0 then x.fraction else x.fraction + Nat.pow 2 52

/-- The binary exponent above the least one. -/
def scale (x : Double) : Nat :=
  x.exponentField - 1

/-- The double of a sign, a significand below `2 ^ 53` and a scale; a
significand below `2 ^ 52` has scale zero. -/
def ofParts (negative : Bool) (significand scale : Nat) : Double :=
  let magnitude :=
    if significand < Nat.pow 2 52 then significand
    else (scale + 1) * Nat.pow 2 52 + (significand - Nat.pow 2 52)
  ⟨UInt64.ofNat (magnitude + if negative then Nat.pow 2 63 else 0)⟩

/-- The whole number nearest to `n / d`, the even one of two. -/
def roundDiv (n d : Nat) : Nat :=
  let q := n / d
  let r := n % d
  if 2 * r < d ∨ (2 * r = d ∧ q % 2 = 0) then q else q + 1

/-- The double nearest to the fraction `n / d`, or nothing if that is beyond the
greatest one. -/
def ofRatio (negative : Bool) (n d : Nat) : Option Double :=
  let n := n * Nat.pow 2 1074
  -- the least scale that leaves a quotient below `2 ^ 53`
  let rough := n.log2 - d.log2 - 53
  let scale :=
    if n / (d * Nat.pow 2 rough) < Nat.pow 2 53 then rough else rough + 1
  let significand := roundDiv n (d * Nat.pow 2 scale)
  let (significand, scale) :=
    if significand = Nat.pow 2 53 then (Nat.pow 2 52, scale + 1) else
      (significand, scale)
  if scale ≤ 2045 then some (ofParts negative significand scale) else none

/-- The double nearest to `digits * 10 ^ exponent`, or nothing if that is beyond
the greatest one. -/
def ofDecimal (negative : Bool) (digits : Nat) (exponent : Int) :
    Option Double :=
  if digits = 0 then some (ofParts negative 0 0)
  else if 400 < exponent then none
  else if exponent + digits.log2 < -400 then some (ofParts negative 0 0)
  else if 0 ≤ exponent then ofRatio negative
    (digits * Nat.pow 10 exponent.toNat) 1
  else ofRatio negative digits (Nat.pow 10 (-exponent).toNat)

/-- The shortest decimal number that rounds to a double. -/
def shortest (x : Double) : Decimal :=
  .ofBinary x.significand x.scale 1074 (x.fraction = 0 ∧ 1 < x.exponentField)

end Double

/-- A binary fraction of thirty-two bits. -/
structure Single where
  bits : UInt32
  deriving Repr, DecidableEq, Inhabited

namespace Single

/-- Whether the sign bit is set. -/
def negative (x : Single) : Bool :=
  x.bits >>> 31 == 1

/-- The eight bits of exponent. -/
def exponentField (x : Single) : Nat :=
  ((x.bits >>> 23) &&& 0xff).toNat

/-- The twenty-three bits of fraction. -/
def fraction (x : Single) : Nat :=
  (x.bits &&& 0x7fffff).toNat

/-- Whether a single is neither infinite nor undefined. -/
def isFinite (x : Single) : Bool :=
  x.exponentField < 255

/-- The significand: with `scale`, the absolute value is
`significand * 2 ^ scale / 2 ^ 149`. -/
def significand (x : Single) : Nat :=
  if x.exponentField = 0 then x.fraction else x.fraction + Nat.pow 2 23

/-- The binary exponent above the least one. -/
def scale (x : Single) : Nat :=
  x.exponentField - 1

/-- The double of the same value. -/
def toDouble (x : Single) : Double :=
  if x.isFinite then
    (Double.ofRatio x.negative (x.significand * Nat.pow 2 x.scale)
      (Nat.pow 2 149)).getD ⟨0⟩
  else
    ⟨(if x.negative then 0xfff0000000000000 else 0x7ff0000000000000)
      ||| UInt64.ofNat (x.fraction * Nat.pow 2 29)⟩

/-- The shortest decimal number that rounds to a single. -/
def shortest (x : Single) : Decimal :=
  .ofBinary x.significand x.scale 149 (x.fraction = 0 ∧ 1 < x.exponentField)

end Single

end DidVault
