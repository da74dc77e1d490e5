/-!
# Byte strings

Everything that is hashed, encrypted, stored or exchanged is a byte string.
They are plain lists, so that the laws of `List` are the laws of byte strings.

* `Bytes.blocks` cuts a byte string into blocks of one size; only the last may
  be short.
* `Bytes.toNat` and `Bytes.ofNat` read and write a number, most significant byte
  first.
-/

namespace DidVault

/-- A byte string. -/
abbrev Bytes := List UInt8

namespace Bytes

/-- Consecutive blocks of `size` elements; the last one holds what is left
over. -/
def blocks {α : Type} (size : Nat) (positive : 0 < size) (xs : List α) :
    List (List α) :=
  match xs with
  | [] => []
  | x :: rest =>
    (x :: rest).take size :: blocks size positive ((x :: rest).drop size)
termination_by xs.length
decreasing_by simp only [List.length_drop, List.length_cons]; omega

/-- The number a byte string writes, most significant byte first. -/
def toNat (bytes : Bytes) : Nat :=
  bytes.foldl (fun n b => n * 256 + b.toNat) 0

/-- The bytes of `n`, most significant first, in front of `tail`; `fuel` bounds
their number. -/
def ofNatOnto : Nat → Nat → Bytes → Bytes
  | 0, _, tail => tail
  | fuel + 1, n, tail =>
    if n = 0 then tail else ofNatOnto fuel (n / 256) (UInt8.ofNat n :: tail)

/-- The shortest byte string that writes `n`, most significant byte first; zero
is one zero byte. -/
def ofNat (n : Nat) : Bytes :=
  if n = 0 then [0] else ofNatOnto (n.log2 / 8 + 1) n []

/-- Exactly `width` bytes of `n`, most significant first. -/
def ofNatWide : Nat → Nat → Bytes
  | 0, _ => []
  | width + 1, n => ofNatWide width (n / 256) ++ [UInt8.ofNat n]

/-- Byte-wise exclusive or, as long as the shorter of the two. -/
def xor (a b : Bytes) : Bytes :=
  List.zipWith (· ^^^ ·) a b

/-- The order of byte strings: byte by byte, a proper beginning first. -/
def before : Bytes → Bytes → Bool
  | _, [] => false
  | [], _ :: _ => true
  | a :: as, b :: bs =>
    if a < b then true else if b < a then false else before as bs

end Bytes

end DidVault
