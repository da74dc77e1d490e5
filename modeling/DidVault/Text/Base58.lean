import DidVault.Bytes

/-!
# Base58

The alphabet of letters and digits without `0`, `O`, `I` and `l`.  A byte string
is read as one number, whose digits follow one `1` for each leading zero byte.
-/

namespace DidVault.Base58

/-- The fifty-eight symbols in the order of their values. -/
def alphabet : List Char :=
  "123456789ABCDEFGHJKLMNPQRSTUVWXYZabcdefghijkmnopqrstuvwxyz".toList

/-- The symbol of a number below fifty-eight. -/
def symbol (n : Nat) : Char :=
  alphabet.getD n '1'

/-- The digits of `n` in front of `tail`, most significant first. -/
def digitsOnto (n : Nat) (tail : List Char) : List Char :=
  if n = 0 then tail else digitsOnto (n / 58) (symbol (n % 58) :: tail)
termination_by n
decreasing_by omega

/-- How many zero bytes a byte string begins with. -/
def leadingZeros (bytes : Bytes) : Nat :=
  (bytes.takeWhile (· == 0)).length

/-- The characters of a byte string. -/
def encodeChars (bytes : Bytes) : List Char :=
  List.replicate (leadingZeros bytes) '1' ++ digitsOnto (Bytes.toNat bytes) []

/-- The text of a byte string. -/
def encode (bytes : Bytes) : String :=
  String.ofList (encodeChars bytes)

/-- The number that a symbol stands for. -/
def value? (c : Char) : Option Nat :=
  alphabet.findIdx? (· == c)

/-- The bytes that a list of characters writes: a zero byte for each leading
`1`, and the bytes of the number that the other symbols write. -/
def decodeChars (cs : List Char) : Option Bytes := do
  let digits ← (cs.dropWhile (· == '1')).mapM value?
  let n := digits.foldl (fun n digit => n * 58 + digit) 0
  let zeros := List.replicate (cs.takeWhile (· == '1')).length 0
  return if n = 0 then zeros else zeros ++ Bytes.ofNat n

end DidVault.Base58
