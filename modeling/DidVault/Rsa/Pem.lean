import DidVault.Text.Base64

/-!
# PEM

Encoded keys are exchanged as text: Base64 in lines of sixty-four characters,
between two boundaries that carry a label.  Lines end in a line feed, a carriage
return or both.  Text in front of the first boundary is passed over, but nothing
may follow the last one.
-/

namespace DidVault.Pem

/-- How many characters a line has. -/
def lineLength : Nat := 64

theorem lineLength_pos : 0 < lineLength := by decide

/-- What an opening boundary begins with. -/
def opening : List Char := "-----BEGIN ".toList

/-- What a closing boundary begins with. -/
def closing : List Char := "-----END ".toList

/-- What every boundary ends in. -/
def dashes : List Char := "-----".toList

/-- The characters of an encoded key under a label. -/
def renderChars (label : List Char) (contents : Bytes) : List Char :=
  let lines :=
    Bytes.blocks lineLength lineLength_pos (Base64.encodeChars contents)
  opening ++ label ++ dashes ++ '\n' ::
    (lines.flatMap (· ++ ['\n']) ++ closing ++ label ++ dashes ++ ['\n'])

/-- The text of an encoded key under a label. -/
def render (label : String) (contents : Bytes) : String :=
  String.ofList (renderChars label.toList contents)

/-- What is left behind the end of a line that stands here. -/
def lineEnd? : List Char → Option (List Char)
  | '\r' :: '\n' :: rest => some rest
  | '\n' :: rest => some rest
  | '\r' :: rest => some rest
  | _ => none

/-- What is left behind `start`, if a list begins with it. -/
def behind? (start : List Char) (cs : List Char) : Option (List Char) :=
  if start.isPrefixOf cs then some (cs.drop start.length) else none

/-- The text from behind the first opening boundary that begins a line. -/
def findOpening : List Char → Option (List Char)
  | [] => none
  | c :: rest =>
    if c = '\x00' then none
    else if c = '\n' then
      match behind? opening rest with
      | some rest => some rest
      | none => findOpening rest
    else findOpening rest

/-- A text without the end of a line that it ends in, given the other way
round. -/
def withoutLineEnd : List Char → List Char
  | '\n' :: '\r' :: rest => rest
  | '\n' :: rest => rest
  | '\r' :: rest => rest
  | cs => cs

/-- The characters of the body, without the ends of lines: every line but the
last is full and has no padding, and the last one, which may be empty, may have
one more end of a line. -/
def bodyChars : Nat → List Char → Option (List Char)
  | 0, _ => none
  | fuel + 1, cs =>
    let line := cs.take lineLength
    match cs.drop lineLength with
    | [] => some (withoutLineEnd line.reverse).reverse
    | rest =>
      match lineEnd? rest with
      | none => none
      | some [] => some line
      | some rest =>
        if '=' ∈ line then none else (bodyChars fuel rest).map (line ++ ·)

/-- Reads the contents of an encoded key under a label. -/
def parse (label : String) (text : String) : Option Bytes := do
  let rest ← findOpening ('\n' :: text.toList)
  let rest ← behind? (label.toList ++ dashes) rest
  let rest ← lineEnd? rest
  -- the closing boundary is looked for from the end
  let ending := (closing ++ label.toList ++ dashes).reverse
  let rest ← behind? ending (withoutLineEnd rest.reverse)
  let body := withoutLineEnd rest
  if body.length = rest.length then none
  let body ← bodyChars (body.length + 1) body.reverse
  Base64.decodeChars body

end DidVault.Pem
