import DidVault.Json.Canonical
import DidVault.Json.Fault

/-!
# Values that are not JSON yet

What a program hands over to be written need not be JSON: its whole numbers have
any size, its floats may be infinite or undefined, some of its values are
optional, and the members of its maps have values for names. An optional value
that is there is written as the value itself, and one that is not there as
`null`; neither is a name. `Datum.toJson` is the JSON value of such a value, if
it has one.
-/

namespace DidVault

/-- A value as a program holds it. -/
inductive Datum where
  | null
  | bool (b : Bool)
  | whole (n : Int)
  | float (x : Double)
  | single (x : Single)
  | text (s : String)
  /-- An optional value that is there. -/
  | given (d : Datum)
  | list (items : List Datum)
  | map (entries : List (Datum × Datum))
  deriving Repr, Inhabited

namespace Datum

/-- The name of a member that is given as a value. -/
def name : Datum → Except Json.Fault String
  | text s => .ok s
  | bool b => .ok (toString b)
  | whole n => .ok (String.ofList (Number.wholeChars n))
  | float x =>
    if x.isFinite then .ok (Number.pointedText x) else .error .floatKeyNotFinite
  | single x =>
    if x.isFinite then .ok (Number.pointedSingleText x) else
      .error .floatKeyNotFinite
  | null | given _ | list _ | map _ => .error .keyNotString

mutual

/-- The JSON value of a value; the entries of a map keep their order and
repetitions. -/
def toJson : Datum → Except Json.Fault Json
  | null => .ok .null
  | bool b => .ok (.bool b)
  | whole n =>
    if Number.fits n then .ok (.number (.whole n)) else .error .numberOutOfRange
  | float x => .ok (.ofDouble x)
  | single x => .ok (.ofDouble x.toDouble)
  | text s => .ok (.string s)
  | given d => toJson d
  | list items => Json.array <$> listToJson items
  | map entries => Json.object <$> entriesToJson entries

/-- The JSON values of a list. -/
def listToJson : List Datum → Except Json.Fault (List Json)
  | [] => .ok []
  | item :: rest => do
    let v ← toJson item
    let vs ← listToJson rest
    return v :: vs

/-- The members of a map; of an entry the name is looked at first. -/
def entriesToJson :
    List (Datum × Datum) → Except Json.Fault (List (String × Json))
  | [] => .ok []
  | (key, item) :: rest => do
    let name ← key.name
    let v ← toJson item
    let members ← entriesToJson rest
    return (name, v) :: members

end

/-- The canonical text of a value. -/
def canonical (d : Datum) : Except Json.Fault String :=
  Json.canonical <$> d.toJson

end Datum

end DidVault
