import DidVault.Json.Double

/-!
# JSON values

A value keeps the members of its objects in the order in which they were
written, repetitions included: which of two members of one name counts is
decided where an object is used.
-/

namespace DidVault

/-- A JSON number: a whole number that fits sixty-four bits, signed or not, or a
binary fraction. -/
inductive Number where
  | whole (n : Int)
  | float (x : Double)
  deriving Repr, DecidableEq, Inhabited

/-- A JSON value. -/
inductive Json where
  | null
  | bool (b : Bool)
  | number (n : Number)
  | string (s : String)
  | array (items : List Json)
  | object (members : List (String × Json))
  deriving Repr, Inhabited

namespace Number

/-- Whether a whole number fits sixty-four bits, signed or not. -/
def fits (n : Int) : Bool :=
  -9223372036854775808 ≤ n && n ≤ 18446744073709551615

/-- Floats as ECMAScript writes them. -/
def ecmaScript : DecimalStyle where
  least := -5
  greatest := 21
  wholeTail := []
  signedZero := false

/-- Floats with their point kept, as in the names of members and in reports of a
wrong type. -/
def pointed : DecimalStyle where
  least := -4
  greatest := 16
  wholeTail := ['.', '0']
  signedZero := true

/-- Floats of the shorter format with their point kept. -/
def pointedSingle : DecimalStyle where
  least := -5
  greatest := 13
  wholeTail := ['.', '0']
  signedZero := true

/-- The text of a finite double with its point. -/
def pointedText (x : Double) : String :=
  String.ofList (pointed.write x.negative x.shortest)

/-- The text of a finite single with its point. -/
def pointedSingleText (x : Single) : String :=
  String.ofList (pointedSingle.write x.negative x.shortest)

/-- The text of a whole number. -/
def wholeChars (n : Int) : List Char :=
  if n < 0 then '-' :: DecimalStyle.digitsOf n.natAbs else
    DecimalStyle.digitsOf n.natAbs

/-- The text of a number. -/
def chars : Number → List Char
  | whole n => wholeChars n
  | float x => ecmaScript.write x.negative x.shortest

end Number

namespace Json

/-- The value of a double; one that is infinite or undefined has no number and
becomes null. -/
def ofDouble (x : Double) : Json :=
  if x.isFinite then number (.float x) else null

/-- The member of a name that counts: the last one. -/
def member? (name : String) (members : List (String × Json)) : Option Json :=
  (members.reverse.find? (·.1 == name)).map (·.2)

end Json

end DidVault
