import DidVault.Text.Utf8

/-!
# Pieces of a text by byte places

A reader that works on the bytes of a text takes pieces of it from one byte to
another.  Only pieces that begin and end between two characters are texts;
`Utf8.slice?` refuses all others.
-/

namespace DidVault.Utf8

/-- The place stands in front of a byte that begins a character, or at the
end. -/
def isBoundary (bytes : Bytes) (place : Nat) : Bool :=
  match bytes[place]? with
  | some b => !isContinuation b
  | none => place == bytes.length

/-- The text from `start` up to `stop`.  There is none if the places are out of
order, behind the end or inside a character. -/
def slice? (bytes : Bytes) (start stop : Nat) : Option String :=
  if start ≤ stop && isBoundary bytes start && isBoundary bytes stop then
    (decode ((bytes.take stop).drop start)).toOption
  else none

end DidVault.Utf8
