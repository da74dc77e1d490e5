import DidVault.Json.Basic
import DidVault.Text.Quoted

/-!
# Why JSON text is refused

A `Fault` is either one of the text, whatever it was expected to hold, or one of
a record that the text was read as.  `Fault.message` has the words of each.
-/

namespace DidVault.Json

/-- What was found where something else was expected. -/
inductive Found where
  | null
  | bool (b : Bool)
  | number (n : Number)
  | string (s : String)
  | sequence
  | map
  deriving Repr, DecidableEq

/-- Why JSON text is refused. -/
inductive Fault where
  | endOfValue
  | endOfList
  | endOfObject
  | endOfString
  | expectedValue
  | expectedWord
  | expectedColon
  | expectedListComma
  | expectedObjectComma
  | keyNotString
  | trailingComma
  | trailingCharacters
  | invalidNumber
  | numberOutOfRange
  | invalidEscape
  | loneSurrogate
  | brokenSurrogatePair
  | invalidCodePoint
  | controlCharacter
  | tooDeep
  | floatKeyNotFinite
  | wrongType (found : Found) (expected : String)
  | wrongLength (length : Nat) (expected : String)
  | missingField (name : String)
  | duplicateField (name : String)
  | unknownVariant (name : String) (known : List String)
  /-- The value has none of the shapes that a choice without a tag allows. -/
  | noShape (title : String)
  | bothConditions
  | neitherCondition
  deriving Repr, DecidableEq

/-- The words for what was found. -/
def Found.words : Found → String
  | null => "null"
  | bool b => "boolean `" ++ toString b ++ "`"
  | number (.whole n) =>
    "integer `" ++ String.ofList (Number.wholeChars n) ++ "`"
  | number (.float x) => "floating point `" ++ Number.pointedText x ++ "`"
  | string s => "string " ++ Quoted.render s
  | sequence => "sequence"
  | map => "map"

/-- Names between backticks, separated by commas. -/
def quotedNames (names : List String) : String :=
  String.intercalate ", " (names.map fun name => "`" ++ name ++ "`")

/-- The words of a fault. -/
def Fault.message : Fault → String
  | endOfValue => "EOF while parsing a value"
  | endOfList => "EOF while parsing a list"
  | endOfObject => "EOF while parsing an object"
  | endOfString => "EOF while parsing a string"
  | expectedValue => "expected value"
  | expectedWord => "expected ident"
  | expectedColon => "expected `:`"
  | expectedListComma => "expected `,` or `]`"
  | expectedObjectComma => "expected `,` or `\x7d`"
  | keyNotString => "key must be a string"
  | trailingComma => "trailing comma"
  | trailingCharacters => "trailing characters"
  | invalidNumber => "invalid number"
  | numberOutOfRange => "number out of range"
  | invalidEscape => "invalid escape"
  | loneSurrogate => "lone leading surrogate in hex escape"
  | brokenSurrogatePair => "unexpected end of hex escape"
  | invalidCodePoint => "invalid unicode code point"
  | controlCharacter =>
    "control character (\\u0000-\\u001F) found while parsing a string"
  | tooDeep => "recursion limit exceeded"
  | floatKeyNotFinite => "float key must be finite (got NaN or +/-inf)"
  | wrongType found expected =>
    "invalid type: " ++ found.words ++ ", expected " ++ expected
  | wrongLength length expected =>
    "invalid length " ++ toString length ++ ", expected " ++ expected
  | missingField name => "missing field `" ++ name ++ "`"
  | duplicateField name => "duplicate field `" ++ name ++ "`"
  | unknownVariant name known =>
    "unknown variant `" ++ name ++ "`, expected one of " ++ quotedNames known
  | noShape title => "data did not match any variant of untagged enum " ++ title
  | bothConditions => "access node carries both conditionAnd and conditionOr"
  | neitherCondition =>
    "access node carries neither conditionAnd nor conditionOr"

end DidVault.Json
