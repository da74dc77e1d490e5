import DidVault.Json.Fault
import DidVault.Text.Hex
import DidVault.Text.Utf8

/-!
# The tokens of JSON text

`Token.scan` cuts a byte string into tokens and drops the blanks between them.
A token that is shaped well but has no value of its own (a number beyond all
doubles, a text that is not UTF-8) carries its fault, which only matters to a
reader that wants the value.  A token that ends before it is complete is the
last one: what follows it is never read.
-/

namespace DidVault.Json

/-- A token of JSON text. -/
inductive Token where
  | beginArray
  | endArray
  | beginObject
  | endObject
  | comma
  | colon
  | null
  | bool (b : Bool)
  | number (n : Except Fault Number)
  | string (s : Except Fault String)
  /-- A word other than `null`, `true` and `false` that begins like one of
  them. -/
  | brokenWord (fault : Fault)
  /-- A number without its digits. -/
  | brokenNumber (fault : Fault)
  /-- A text that does not end: the fault that its reader finds, and the fault
  of one that only looks for its end. -/
  | brokenString (fault skipFault : Fault)
  /-- A byte that begins no token. -/
  | stray

/-- The blanks between tokens. -/
def isBlank (b : UInt8) : Bool :=
  b == 0x20 || b == 0x0a || b == 0x09 || b == 0x0d

/-- A decimal digit. -/
def isDigit (b : UInt8) : Bool :=
  0x30 ≤ b && b ≤ 0x39

/-- The number that decimal digits write. -/
def digitsValue (ds : Bytes) : Nat :=
  ds.foldl (fun n d => n * 10 + (d.toNat - 48)) 0

/-- Where digits are expected: the end of the text and another byte are told
apart. -/
def missingDigits : Bytes → Fault
  | [] => .endOfValue
  | _ :: _ => .invalidNumber

/-- Scans the digits that stand here. -/
def scanDigits (bytes : Bytes) : Except Fault (Bytes × Bytes) :=
  match bytes.takeWhile isDigit with
  | [] => .error (missingDigits bytes)
  | ds => .ok (ds, bytes.dropWhile isDigit)

/-- Scans the digits in front of the decimal point; a zero stands alone. -/
def scanWhole : Bytes → Except Fault (Bytes × Bytes)
  | 0x30 :: rest =>
    match rest with
    | [] => .ok ([0x30], rest)
    | d :: _ => if isDigit d then .error .invalidNumber else .ok ([0x30], rest)
  | bytes => scanDigits bytes

/-- Scans the point and the digits behind it, if there is one. -/
def scanFraction : Bytes → Except Fault (Option Bytes × Bytes)
  | 0x2e :: rest => do
    let (ds, rest) ← scanDigits rest
    return (some ds, rest)
  | bytes => .ok (none, bytes)

/-- Scans the sign of an exponent, if there is one: whether it is a minus. -/
def scanSign : Bytes → Bool × Bytes
  | 0x2b :: rest => (false, rest)
  | 0x2d :: rest => (true, rest)
  | bytes => (false, bytes)

/-- Scans an exponent, if there is one. -/
def scanExponent : Bytes → Except Fault (Option Int × Bytes)
  | [] => .ok (none, [])
  | b :: rest =>
    if b = 0x65 ∨ b = 0x45 then do
      let (minus, rest) := scanSign rest
      let (ds, rest) ← scanDigits rest
      let n : Int := digitsValue ds
      return (some (if minus then -n else n), rest)
    else .ok (none, b :: rest)

/-- The number of a sign, digits before and behind the point and an exponent.
Without point and exponent it is whole, if it fits; a negative zero is no whole
number. -/
def numberOf (minus : Bool) (whole : Bytes) (fraction : Option Bytes)
    (exponent : Option Int) : Except Fault Number :=
  let float (digits : Nat) (exponent : Int) : Except Fault Number :=
    match Double.ofDecimal minus digits exponent with
    | some x => .ok (.float x)
    | none => .error .numberOutOfRange
  match fraction, exponent with
  | none, none =>
    let n := digitsValue whole
    if minus then
      if n ≠ 0 ∧ Number.fits (-n) then .ok (.whole (-n)) else float n 0
    else if Number.fits n then .ok (.whole n)
    else float n 0
  | fraction, exponent =>
    let behind := fraction.getD []
    float (digitsValue (whole ++ behind)) (exponent.getD 0 - behind.length)

/-- Scans a number behind its sign. -/
def scanNumber (minus : Bool) (bytes : Bytes) :
    Except Fault (Except Fault Number × Bytes) := do
  let (whole, rest) ← scanWhole bytes
  let (fraction, rest) ← scanFraction rest
  let (exponent, rest) ← scanExponent rest
  return (numberOf minus whole fraction exponent, rest)

/-- Scans the letters of a word. -/
def scanWord : Bytes → Bytes → Except Fault Bytes
  | [], rest => .ok rest
  | _ :: _, [] => .error .endOfValue
  | letter :: letters, b :: rest =>
    if b = letter then scanWord letters rest else .error .expectedWord

/-- The number that four hexadecimal digits write. -/
def hexEscape? (a b c d : UInt8) : Option Nat :=
  match Hex.value? (Char.ofNat a.toNat), Hex.value? (Char.ofNat b.toNat),
      Hex.value? (Char.ofNat c.toNat), Hex.value? (Char.ofNat d.toNat) with
  | some w, some x, some y, some z => some (((w * 16 + x) * 16 + y) * 16 + z)
  | _, _, _, _ => none

/-- The byte that a one-letter escape stands for. -/
def shortEscape? (b : UInt8) : Option UInt8 :=
  if b = 0x22 ∨ b = 0x5c ∨ b = 0x2f then some b
  else if b = 0x62 then some 0x08
  else if b = 0x66 then some 0x0c
  else if b = 0x6e then some 0x0a
  else if b = 0x72 then some 0x0d
  else if b = 0x74 then some 0x09
  else none

/-- Whether a number is a leading surrogate. -/
def isLeading (n : Nat) : Bool := 0xd800 ≤ n && n ≤ 0xdbff

/-- Whether a number is a trailing surrogate. -/
def isTrailing (n : Nat) : Bool := 0xdc00 ≤ n && n ≤ 0xdfff

/-- What comes behind the escape of a leading surrogate. -/
inductive Trail where
  /-- The escape of a trailing surrogate, and the rest. -/
  | paired (n : Nat) (rest : Bytes)
  | unpaired (fault : Fault)

/-- Looks for the escape of a trailing surrogate. -/
def scanTrail : Bytes → Trail
  | [] => .unpaired .endOfString
  | [b] => .unpaired (if b = 0x5c then .endOfString else .brokenSurrogatePair)
  | b :: u :: rest =>
    if b = 0x5c ∧ u = 0x75 then
      match rest with
      | w :: x :: y :: z :: rest =>
        match hexEscape? w x y z with
        | some n =>
          if isTrailing n then .paired n rest else .unpaired .loneSurrogate
        | none => .unpaired .invalidEscape
      | _ => .unpaired .endOfString
    else .unpaired .brokenSurrogatePair

/-- The UTF-8 bytes of a code point that is no surrogate. -/
def codePoint (n : Nat) : Bytes :=
  String.utf8EncodeChar (Char.ofNat n)

/-- The next piece of a text. -/
inductive Piece where
  /-- The closing quote. -/
  | close (rest : Bytes)
  /-- Bytes of the content. -/
  | content (bytes rest : Bytes)
  /-- An escape that has an end but no value. -/
  | valueless (fault : Fault) (rest : Bytes)
  /-- A place from which no end can be found. -/
  | broken (fault : Fault)

/-- The piece behind a backslash and a `u`. -/
def numberedPiece : Bytes → Piece
  | w :: x :: y :: z :: rest =>
    match hexEscape? w x y z with
    | none => .broken .invalidEscape
    | some n =>
      if isTrailing n then .valueless .loneSurrogate rest
      else if isLeading n then
        match scanTrail rest with
        | .paired m rest' =>
          .content (codePoint (0x10000 + (n - 0xd800) * 0x400 + (m - 0xdc00)))
            rest'
        | .unpaired fault => .valueless fault rest
      else .content (codePoint n) rest
  | _ => .broken .endOfString

/-- The piece behind a backslash. -/
def escapedPiece : Bytes → Piece
  | [] => .broken .endOfString
  | e :: rest =>
    if e = 0x75 then numberedPiece rest
    else
      match shortEscape? e with
      | some b => .content [b] rest
      | none => .broken .invalidEscape

/-- The first piece of what stands behind an opening quote. -/
def scanPiece : Bytes → Piece
  | [] => .broken .endOfString
  | b :: rest =>
    if b = 0x22 then .close rest
    else if b < 0x20 then .broken .controlCharacter
    else if b = 0x5c then escapedPiece rest
    else .content [b] rest

/-- The value of a text whose bytes between the quotes, with escapes replaced,
are `content`. -/
def textOf (content : Bytes) : Except Fault String :=
  match Utf8.decode content with
  | .ok s => .ok s
  | .error _ => .error .invalidCodePoint

/-- Scans a text behind its opening quote.  `content` holds the bytes so far,
the last one first; `fault` is the first fault that leaves the text without a
value.  Every piece takes a byte, so `fuel` need not exceed the number of bytes
by more than one. -/
def scanText : Nat → Bytes → Option Fault → Bytes → Token × Bytes
  | 0, _, _, bytes => (.stray, bytes)
  | fuel + 1, content, fault, bytes =>
    match scanPiece bytes with
    | .close rest =>
      match fault with
      | none => (.string (textOf content.reverse), rest)
      | some fault => (.string (.error fault), rest)
    | .content more rest => scanText fuel (more.reverse ++ content) fault rest
    | .valueless found rest => scanText fuel content (fault <|> some found) rest
    | .broken found => (.brokenString (fault.getD found) found, [])

/-- The first token of a byte string that begins with no blank, and what is left
behind it. -/
def scanToken (b : UInt8) (rest : Bytes) : Token × Bytes :=
  let word (letters : Bytes) (token : Token) : Token × Bytes :=
    match scanWord letters rest with
    | .ok rest => (token, rest)
    | .error fault => (.brokenWord fault, [])
  let number (minus : Bool) (bytes : Bytes) : Token × Bytes :=
    match scanNumber minus bytes with
    | .ok (n, rest) => (.number n, rest)
    | .error fault => (.brokenNumber fault, [])
  if b = 0x5b then (.beginArray, rest)
  else if b = 0x5d then (.endArray, rest)
  else if b = 0x7b then (.beginObject, rest)
  else if b = 0x7d then (.endObject, rest)
  else if b = 0x2c then (.comma, rest)
  else if b = 0x3a then (.colon, rest)
  else if b = 0x22 then scanText (rest.length + 1) [] none rest
  else if b = 0x6e then word [0x75, 0x6c, 0x6c] .null
  else if b = 0x74 then word [0x72, 0x75, 0x65] (.bool true)
  else if b = 0x66 then word [0x61, 0x6c, 0x73, 0x65] (.bool false)
  else if b = 0x2d then number true rest
  else if isDigit b then number false (b :: rest)
  else (.stray, [])

/-- The tokens of a byte string of at most `fuel` bytes. -/
def scanTokens : Nat → Bytes → List Token
  | 0, _ => []
  | _ + 1, [] => []
  | fuel + 1, b :: rest =>
    if isBlank b then scanTokens fuel rest
    else
      let (token, rest) := scanToken b rest
      token :: scanTokens fuel rest

/-- The tokens of a byte string. -/
def Token.scan (bytes : Bytes) : List Token :=
  scanTokens bytes.length bytes

end DidVault.Json
