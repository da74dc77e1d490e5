/-!
# Cutting texts

`cut` divides a text at the first place where a character stands; `holds` looks
for one text inside another.
-/

namespace DidVault.Text

/-- What stands before the first `mark`, and what stands behind it if there is
one. -/
def cutChars (mark : Char) (cs : List Char) : List Char × Option (List Char) :=
  match cs.dropWhile (· != mark) with
  | [] => (cs, none)
  | _ :: rest => (cs.takeWhile (· != mark), some rest)

/-- What stands before the first `mark`, and what stands behind it if there is
one. -/
def cut (mark : Char) (s : String) : String × Option String :=
  let (before, behind) := cutChars mark s.toList
  (String.ofList before, behind.map String.ofList)

/-- Whether `part` stands somewhere in a list of characters. -/
def holdsChars (part : List Char) : List Char → Bool
  | [] => part.isEmpty
  | c :: cs => part.isPrefixOf (c :: cs) || holdsChars part cs

/-- Whether `part` stands somewhere in `s`. -/
def holds (part s : String) : Bool :=
  holdsChars part.toList s.toList

/-- A text without the marks it begins with. -/
def withoutLeading (mark : Char) (s : String) : String :=
  String.ofList (s.toList.dropWhile (· == mark))

/-- Whether a text begins with `start`. -/
def beginsWith (start s : String) : Bool :=
  start.toList.isPrefixOf s.toList

end DidVault.Text
