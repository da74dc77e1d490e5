import DidVault.Bytes

/-!
# Distinguished encoding

Keys are encoded as elements of a tag, a length and contents.  There is one
encoding for each value: lengths and numbers take as few bytes as they can, and
readers refuse all others.
-/

namespace DidVault.Der

/-- The tag of a number. -/
def numberTag : UInt8 := 0x02

/-- The tag of a string of bits. -/
def bitsTag : UInt8 := 0x03

/-- The tag of a sequence. -/
def sequenceTag : UInt8 := 0x30

/-- The bytes of a length. -/
def lengthBytes (n : Nat) : Bytes :=
  if n < 128 then [UInt8.ofNat n]
  else
    let bytes := Bytes.ofNat n
    UInt8.ofNat (128 + bytes.length) :: bytes

/-- An element. -/
def element (tag : UInt8) (contents : Bytes) : Bytes :=
  tag :: (lengthBytes contents.length ++ contents)

/-- A number that is not negative; a zero byte keeps a leading bit from being
read as a sign. -/
def number (n : Nat) : Bytes :=
  let bytes := Bytes.ofNat n
  element numberTag (if 0x80 ≤ bytes.headD 0 then 0 :: bytes else bytes)

/-- A sequence of encoded elements. -/
def sequence (elements : List Bytes) : Bytes :=
  element sequenceTag elements.flatten

/-- Reads a length of at most four bytes, and what is left. -/
def readLength : Bytes → Option (Nat × Bytes)
  | [] => none
  | b :: rest =>
    if b < 0x80 then some (b.toNat, rest)
    else
      let count := b.toNat - 128
      let bytes := rest.take count
      let n := Bytes.toNat bytes
      if count = 0 ∨ 4 < count ∨ bytes.length < count ∨ bytes.headD 0 = 0 ∨
        n < 128 then none
      else some (n, rest.drop count)

/-- Reads the contents of an element of a tag, and what is left. -/
def readElement (tag : UInt8) : Bytes → Option (Bytes × Bytes)
  | [] => none
  | t :: rest =>
    if t ≠ tag then none
    else
      match readLength rest with
      | none => none
      | some (n, rest) =>
        if rest.length < n then none else some (rest.take n, rest.drop n)

/-- Reads a number that is not negative, and what is left. -/
def readNumber (bytes : Bytes) : Option (Nat × Bytes) :=
  match readElement numberTag bytes with
  | none => none
  | some (contents, rest) =>
    match contents with
    | [] => none
    | [b] => if b < 0x80 then some (b.toNat, rest) else none
    | b :: c :: more =>
      if 0x80 ≤ b ∨ (b = 0 ∧ c < 0x80) then none
      else some (Bytes.toNat (b :: c :: more), rest)

/-- Reads as many numbers as `count`, and what is left. -/
def readNumbers : Nat → Bytes → Option (List Nat × Bytes)
  | 0, bytes => some ([], bytes)
  | count + 1, bytes =>
    match readNumber bytes with
    | none => none
    | some (n, rest) =>
      match readNumbers count rest with
      | none => none
      | some (ns, rest) => some (n :: ns, rest)

/-- Reads a sequence of exactly `count` numbers that is the whole input. -/
def readNumberSequence (count : Nat) (bytes : Bytes) : Option (List Nat) :=
  match readElement sequenceTag bytes with
  | some (contents, []) =>
    match readNumbers count contents with
    | some (ns, []) => some ns
    | _ => none
  | _ => none

end DidVault.Der
