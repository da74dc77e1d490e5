/-!
# Decimal numbers

A decimal number is digits and a power of ten.  `Decimal.ofBinary` finds the
shortest one that rounds to a given binary fraction, and `DecimalStyle.write`
writes it.
-/

namespace DidVault

/-- A decimal number `digits * 10 ^ exponent`. -/
structure Decimal where
  digits : Nat
  exponent : Int
  deriving Repr, DecidableEq

namespace Decimal

/-- Drops the zeros at the end of the digits. -/
def trim : Nat → Decimal → Decimal
  | 0, x => x
  | fuel + 1, x =>
    if x.digits ≠ 0 ∧
      x.digits % 10 = 0 then trim fuel ⟨x.digits / 10, x.exponent + 1⟩ else x

/-- The place of the decimal point of the positive fraction `n / d`, counted
from its first digit: the least `p`, from `start` on, with `n / d < 10 ^ p`. -/
def pointFrom (n d : Nat) : Nat → Int → Int
  | 0, p => p
  | fuel + 1, p =>
    if n * Nat.pow 10 (-p).toNat < d * Nat.pow 10 p.toNat then p else
      pointFrom n d fuel (p + 1)

/-- The decimal number on the grid of `10 ^ exponent` that is nearest to `n / d`
among those between `low / d` and `high / d`; the ends count if `closed`. -/
def nearestOnGrid (n low high d : Nat) (closed : Bool) (exponent : Int) :
    Option Decimal :=
  let up := Nat.pow 10 (-exponent).toNat
  let step := d * Nat.pow 10 exponent.toNat
  let inside (digits : Nat) : Bool :=
    if closed then low * up ≤ digits * step && digits * step ≤ high * up
    else low * up < digits * step && digits * step < high * up
  let below := n * up / step
  let rest := n * up % step
  let order :=
    if 2 * rest < step ∨ (2 * rest = step ∧ below % 2 = 0) then
      [below, below + 1]
    else [below + 1, below]
  (order.find? inside).map (⟨·, exponent⟩)

/-- The shortest decimal number that rounds to the binary fraction
`significand * 2 ^ scale / 2 ^ depth`, from grids of one digit to grids of
seventeen.  The fraction next below is half as far away as the one next above if
`narrow`. -/
def ofBinary (significand scale depth : Nat) (narrow : Bool) : Decimal :=
  -- in quarters of the unit in the last place, so that the ends of the interval
  -- are whole
  let unit := Nat.pow 2 scale
  let n := 4 * significand * unit
  let low := n - (if narrow then unit else 2 * unit)
  let high := n + 2 * unit
  let start := ((n.log2 : Int) - (depth + 2)) * 30103 / 100000
  let point := pointFrom n (Nat.pow 2 (depth + 2)) 4 start
  let closed := significand % 2 = 0
  let grids := (List.range 17).map fun i : Nat => point - 1 - (i : Int)
  match grids.findSome?
    (nearestOnGrid n low high (Nat.pow 2 (depth + 2)) closed) with
  | some decimal => decimal.trim 20
  | none => ⟨0, 0⟩

end Decimal

/-- How a decimal number is written. -/
structure DecimalStyle where
  /-- The least place of the decimal point, counted from the first digit,
  written without an exponent. -/
  least : Int
  /-- The greatest such place. -/
  greatest : Int
  /-- What follows the digits of a whole number that is written without an
  exponent. -/
  wholeTail : List Char
  /-- Whether a zero keeps its sign. -/
  signedZero : Bool

namespace DecimalStyle

/-- The decimal digits of a number. -/
def digitsOf (n : Nat) : List Char :=
  Nat.toDigits 10 n

/-- Writes digits with the decimal point at `point`, counted from the first
digit. -/
def place (style : DecimalStyle) (digits : List Char) (point : Int) :
    List Char :=
  if style.least ≤ point ∧ point ≤ style.greatest then
    if point ≤ 0 then
      '0' :: '.' :: (List.replicate (-point).toNat '0' ++ digits)
    else if point < digits.length then
      digits.take point.toNat ++ '.' :: digits.drop point.toNat
    else digits ++ List.replicate (point.toNat - digits.length) '0' ++
      style.wholeTail
  else
    let tail := digits.drop 1
    digits.take 1 ++ (if tail.isEmpty then [] else '.' :: tail)
      ++ 'e' :: (if 0 < point then '+' else '-') :: digitsOf (point - 1).natAbs

/-- The text of a decimal number with a sign. -/
def write (style : DecimalStyle) (negative : Bool) (x : Decimal) : List Char :=
  if x.digits = 0 then
    (if negative && style.signedZero then ['-'] else []) ++ '0' ::
      style.wholeTail
  else
    let digits := digitsOf x.digits
    (if negative then ['-'] else []) ++ style.place digits
      (x.exponent + digits.length)

end DecimalStyle

end DidVault
