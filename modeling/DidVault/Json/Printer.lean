import DidVault.Json.Basic

/-!
# Writing JSON

`Json.chars` writes a value without any blank, `Json.prettyChars` with two
blanks of indentation for each level.  Both escape as little as the format
allows: quotes, backslashes and control characters.
-/

namespace DidVault.Json

/-- A character as it stands between quotes. -/
def escapeChar (c : Char) : List Char :=
  match c with
  | '"' => ['\\', '"']
  | '\\' => ['\\', '\\']
  | '\x08' => ['\\', 'b']
  | '\x0c' => ['\\', 'f']
  | '\n' => ['\\', 'n']
  | '\r' => ['\\', 'r']
  | '\t' => ['\\', 't']
  | c =>
    if c.toNat < 0x20 then
      ['\\', 'u', '0', '0', if c.toNat < 0x10 then '0' else '1',
        Nat.digitChar (c.toNat % 16)]
    else [c]

/-- A text between quotes. -/
def quoted (s : String) : List Char :=
  '"' :: (s.toList.flatMap escapeChar ++ ['"'])

mutual

/-- A value without blanks. -/
def chars : Json → List Char
  | null => "null".toList
  | bool b => if b then "true".toList else "false".toList
  | number n => n.chars
  | string s => quoted s
  | array items => '[' :: (itemChars items ++ [']'])
  | object members => '\x7b' :: (memberChars members ++ ['\x7d'])

/-- The items of an array, with commas between them. -/
def itemChars : List Json → List Char
  | [] => []
  | [item] => chars item
  | item :: rest => chars item ++ ',' :: itemChars rest

/-- The members of an object, with commas between them. -/
def memberChars : List (String × Json) → List Char
  | [] => []
  | [(name, value)] => quoted name ++ ':' :: chars value
  | (name, value) :: rest =>
    quoted name ++ ':' :: (chars value ++ ',' :: memberChars rest)

end

/-- A new line with `level` steps of indentation. -/
def newLine (level : Nat) : List Char :=
  '\n' :: List.replicate (2 * level) ' '

mutual

/-- A value with its items and members on lines of their own, at `level` steps
of indentation. -/
def prettyChars (level : Nat) : Json → List Char
  | array (item :: items) =>
    '[' :: (prettyItems (level + 1) (item :: items) ++ newLine level ++ [']'])
  | object (member :: members) =>
    '\x7b' :: (prettyMembers (level + 1) (member :: members) ++
      newLine level ++ ['\x7d'])
  | array [] => ['[', ']']
  | object [] => ['\x7b', '\x7d']
  | null => chars null
  | bool b => chars (bool b)
  | number n => chars (number n)
  | string s => chars (string s)

/-- The items of an array on lines of their own. -/
def prettyItems (level : Nat) : List Json → List Char
  | [] => []
  | [item] => newLine level ++ prettyChars level item
  | item :: rest =>
    newLine level ++ prettyChars level item ++ ',' :: prettyItems level rest

/-- The members of an object on lines of their own. -/
def prettyMembers (level : Nat) : List (String × Json) → List Char
  | [] => []
  | [(name, value)] =>
    newLine level ++ quoted name ++ ':' :: ' ' :: prettyChars level value
  | (name, value) :: rest =>
    newLine level ++ quoted name ++ ':' :: ' ' :: (prettyChars level value
      ++ ',' :: prettyMembers level rest)

end

/-- The text of a value without blanks. -/
def render (value : Json) : String :=
  String.ofList value.chars

/-- The text of a value on many lines. -/
def pretty (value : Json) : String :=
  String.ofList (value.prettyChars 0)

end DidVault.Json
