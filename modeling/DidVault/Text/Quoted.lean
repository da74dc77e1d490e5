import DidVault.Text.Printable

/-!
# Quoted text

A text between double quotes, as reports show it: quotes and backslashes behind
a backslash, the usual short forms for tab, line feed, carriage return and the
null character, and the number of every other character that does not show by
itself.
-/

namespace DidVault.Quoted

/-- The number of a character in braces. -/
def numbered (c : Char) : List Char :=
  '\\' :: 'u' :: '\x7b' :: (Nat.toDigits 16 c.toNat ++ ['\x7d'])

/-- A character as it stands between quotes. -/
def escapeChar (c : Char) : List Char :=
  match c with
  | '"' => ['\\', '"']
  | '\\' => ['\\', '\\']
  | '\t' => ['\\', 't']
  | '\n' => ['\\', 'n']
  | '\r' => ['\\', 'r']
  | '\x00' => ['\\', '0']
  | c => if Printable.isPlain c then [c] else numbered c

/-- A text between quotes. -/
def render (s : String) : String :=
  String.ofList ('"' :: (s.toList.flatMap escapeChar ++ ['"']))

end DidVault.Quoted
