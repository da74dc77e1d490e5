import DidVault.Bytes

/-!
# UTF-8

Text is stored and hashed as UTF-8.  `Utf8.encode` writes it and `Utf8.decode`
reads it back, naming the first place where a byte string stops being UTF-8:

* a sequence that can no longer become a character is *invalid*, with the number
  of bytes that belong to it;
* a sequence that the end of the input cuts off is *incomplete*.
-/

namespace DidVault.Utf8

/-- The UTF-8 bytes of a text. -/
def encode (text : String) : Bytes :=
  text.toList.flatMap String.utf8EncodeChar

/-- Why and where a byte string is not UTF-8. -/
inductive Fault where
  /-- The `length` bytes from `index` on begin no character. -/
  | invalid (length index : Nat)
  /-- The input ends inside the character that begins at `index`. -/
  | incomplete (index : Nat)
  deriving Repr, DecidableEq

/-- The words of a fault. -/
def Fault.message : Fault → String
  | .invalid length index =>
    s!"invalid utf-8 sequence of {length} bytes from index {index}"
  | .incomplete index => s!"incomplete utf-8 byte sequence from index {index}"

/-- A byte that continues a character. -/
def isContinuation (b : UInt8) : Bool :=
  0x80 ≤ b && b ≤ 0xbf

/-- For a leading byte of a longer character: how many bytes it has and the
range of the second one, which excludes overlong forms, surrogates and numbers
above U+10FFFF. -/
def lead (b : UInt8) : Option (Nat × UInt8 × UInt8) :=
  if 0xc2 ≤ b && b ≤ 0xdf then some (2, 0x80, 0xbf)
  else if b == 0xe0 then some (3, 0xa0, 0xbf)
  else if b == 0xed then some (3, 0x80, 0x9f)
  else if 0xe1 ≤ b && b ≤ 0xef then some (3, 0x80, 0xbf)
  else if b == 0xf0 then some (4, 0x90, 0xbf)
  else if 0xf1 ≤ b && b ≤ 0xf3 then some (4, 0x80, 0xbf)
  else if b == 0xf4 then some (4, 0x80, 0x8f)
  else none

/-- The low six bits that a continuation byte carries. -/
def payload (b : UInt8) : Nat :=
  b.toNat % 64

/-- The characters of a byte string that begins at `index` of the whole
input. -/
def decodeFrom (index : Nat) : Bytes → Except Fault (List Char)
  | [] => .ok []
  | b :: rest =>
    if b < 0x80 then (Char.ofNat b.toNat :: ·) <$> decodeFrom (index + 1) rest
    else
      match lead b with
      | none => .error (.invalid 1 index)
      | some (width, low, high) =>
        match rest with
        | [] => .error (.incomplete index)
        | c :: rest =>
          if c < low || high < c then .error (.invalid 1 index)
          else if width = 2 then
            (Char.ofNat (b.toNat % 32 * 64 + payload c) :: ·) <$>
              decodeFrom (index + 2) rest
          else
            match rest with
            | [] => .error (.incomplete index)
            | d :: rest =>
              if !isContinuation d then .error (.invalid 2 index)
              else if width = 3 then
                (Char.ofNat ((b.toNat % 16 * 64 + payload c) * 64 + payload d)
                  :: ·) <$> decodeFrom (index + 3) rest
              else
                match rest with
                | [] => .error (.incomplete index)
                | e :: rest =>
                  if !isContinuation e then .error (.invalid 3 index)
                  else
                    (Char.ofNat
                      (((b.toNat % 8 * 64 + payload c) * 64 + payload d) * 64 +
                        payload e) :: ·) <$> decodeFrom (index + 4) rest

/-- The text that a byte string writes in UTF-8. -/
def decode (bytes : Bytes) : Except Fault String :=
  String.ofList <$> decodeFrom 0 bytes

end DidVault.Utf8
