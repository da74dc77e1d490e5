import DidVault.Json.Printer
import DidVault.Text.Utf8

/-!
# Canonical JSON

Two values that differ only in the order or repetition of members have the same
canonical text: in every object each name is kept once, with the last of its
values, the members are sorted by the UTF-16 code units of their names, and
nothing stands between the tokens.
-/

namespace DidVault

/-- The UTF-16 code units of a character: one, or a leading and a trailing
surrogate. -/
def utf16Units (c : Char) : List Nat :=
  if c.toNat < 0x10000 then [c.toNat]
  else [0xd800 + (c.toNat - 0x10000) / 0x400,
    0xdc00 + (c.toNat - 0x10000) % 0x400]

/-- Orders texts by their UTF-16 code units. -/
def utf16Before (a b : String) : Bool :=
  decide (a.toList.flatMap utf16Units < b.toList.flatMap utf16Units)

/-- Orders texts by their characters, which is also the order of their UTF-8
bytes. -/
def scalarBefore (a b : String) : Bool :=
  decide (a.toList < b.toList)

namespace Json

/-- Puts a member into members sorted by `before`, in the place of one of the
same name. -/
def insertMember (before : String → String → Bool) (name : String)
    (value : Json) :
    List (String × Json) → List (String × Json)
  | [] => [(name, value)]
  | (other, kept) :: rest =>
    if name = other then (name, value) :: rest
    else if before name other then (name, value) :: (other, kept) :: rest
    else (other, kept) :: insertMember before name value rest

mutual

/-- Sorts the members of every object by `before` and keeps the last one of each
name. -/
def sorted (before : String → String → Bool) : Json → Json
  | array items => array (sortedItems before items)
  | object members => object (sortedMembers before [] members)
  | null => null
  | bool b => bool b
  | number n => number n
  | string s => string s

/-- Sorts every item of a list. -/
def sortedItems (before : String → String → Bool) : List Json → List Json
  | [] => []
  | item :: rest => sorted before item :: sortedItems before rest

/-- Adds sorted members to `done`, which is sorted. -/
def sortedMembers (before : String → String → Bool)
    (done : List (String × Json)) :
    List (String × Json) → List (String × Json)
  | [] => done
  | (name, value) :: rest =>
    sortedMembers before
      (insertMember before name (sorted before value) done) rest

end

/-- The form that all values equal up to the order and repetition of members
share. -/
def normal (value : Json) : Json :=
  value.sorted utf16Before

/-- The canonical text of a value. -/
def canonical (value : Json) : String :=
  value.normal.render

/-- The canonical bytes of a value. -/
def canonicalBytes (value : Json) : Bytes :=
  Utf8.encode value.canonical

end Json

end DidVault
