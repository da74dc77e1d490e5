import DidVault.Json.Reader

/-!
# Reading records

A record is written as an object with one member for each of its fields, in any
order, or as an array of its fields in order.  A `Shape` lists the fields and
how each one is read into a record that begins blank.

* Members of other names are passed over; a name may not come twice.
* A field that is not required keeps its blank value when it is absent.
* Fields are missed in the order of the shape, and only once the object has
  ended.
-/

namespace DidVault.Json

/-- One field of a record of type `σ`. -/
structure Field (σ : Type) where
  name : String
  required : Bool
  /-- Reads the field into a record, given how many lists and records it may
  open. -/
  read : Nat → σ → Reader σ

/-- The fields of a record of type `σ`. -/
structure Shape (σ : Type) where
  /-- What a report of a wrong type calls the record. -/
  title : String
  fields : List (Field σ)
  blank : σ

/-- A field that is read by `item` and put in its place by `put`. -/
def Field.of {σ α : Type} (name : String) (required : Bool)
    (item : Nat → Reader α) (put : σ → α → σ) : Field σ where
  name
  required
  read depth record tokens :=
    match item depth tokens with
    | .ok (a, rest) => .ok (put record a, rest)
    | .error fault => .error fault

namespace Shape

variable {σ : Type}

/-- The field of a name. -/
def field? (shape : Shape σ) (name : String) : Option (Field σ) :=
  shape.fields.find? (·.name == name)

/-- Reads one member behind its name: the names read so far and the record so
far grow by it. -/
def member (shape : Shape σ) (depth : Nat) (state : List String × σ)
    (name : String) :
    Reader (List String × σ) := fun tokens =>
  match shape.field? name with
  | none =>
    match behindColon (fun tokens => (((), ·)) <$> skip tokens) tokens with
    | .ok (_, rest) => .ok (state, rest)
    | .error fault => .error fault
  | some field =>
    if name ∈ state.1 then .error (.duplicateField name)
    else
      match behindColon (field.read depth state.2) tokens with
      | .ok (record, rest) => .ok ((name :: state.1, record), rest)
      | .error fault => .error fault

/-- The first required field that is not among `names`. -/
def missing? (shape : Shape σ) (names : List String) : Option (Field σ) :=
  shape.fields.find? fun field => field.required && !names.contains field.name

/-- Reads the members of a record behind its opening brace. -/
def members (shape : Shape σ) (depth : Nat) : Reader σ := fun tokens =>
  match membersFrom (shape.member depth) (tokens.length + 1) true
    ([], shape.blank) tokens with
  | .error fault => .error fault
  | .ok ((names, record), rest) =>
    match shape.missing? names with
    | some field => .error (.missingField field.name)
    | none => .ok (record, rest)

/-- What an array of the fields in order is called. -/
def arrayTitle (shape : Shape σ) : String :=
  shape.title ++ " with " ++ toString shape.fields.length ++ " elements"

/-- The end of an array all of whose fields have been read. -/
def arrayEnd : List Token → Except Fault (List Token)
  | [] => .error .endOfList
  | .endArray :: rest => .ok rest
  | .comma :: .endArray :: _ => .error .trailingComma
  | _ => .error .trailingCharacters

/-- Reads the remaining fields of an array, of which `index` have been read. -/
def fieldsFrom (shape : Shape σ) (depth : Nat) :
    Nat → List (Field σ) → σ → Reader σ
  | _, [], record, tokens =>
    match arrayEnd tokens with
    | .ok rest => .ok (record, rest)
    | .error fault => .error fault
  | index, field :: fields, record, tokens =>
    match nextItem (index == 0) tokens with
    | .error fault => .error fault
    | .ok (true, tokens) =>
      match field.read depth record tokens with
      | .ok (record, rest) =>
        fieldsFrom shape depth (index + 1) fields record rest
      | .error fault => .error fault
    | .ok (false, tokens) =>
      if field.required then .error (.wrongLength index shape.arrayTitle)
      else fieldsFrom shape depth (index + 1) fields record tokens

/-- Reads a record. -/
def read (shape : Shape σ) (depth : Nat) : Reader σ
  | .beginArray :: rest =>
    match depth with
    | 0 => .error .tooDeep
    | depth + 1 => shape.fieldsFrom depth 0 shape.fields shape.blank rest
  | .beginObject :: rest =>
    match depth with
    | 0 => .error .tooDeep
    | depth + 1 => shape.members depth rest
  | tokens => .error (typeFault shape.title tokens)

end Shape

/-- Reads the name of the only member of an object behind its opening brace. -/
def onlyName : Reader String
  | [] => .error .endOfObject
  | .endObject :: _ => .error .expectedValue
  | .string (.ok s) :: rest => .ok (s, rest)
  | .string (.error fault) :: _ | .brokenString fault _ :: _ => .error fault
  | _ => .error .keyNotString

/-- Reads one of several names: as a text, or as the only member, with value
null, of an object. -/
def variant (known : List String) (depth : Nat) : Reader String := fun tokens =>
  let named (s : String) : Except Fault Unit :=
    if s ∈ known then .ok () else .error (.unknownVariant s known)
  match tokens with
  | [] => .error .endOfValue
  | .string _ :: _ | .brokenString _ _ :: _ => do
    let (s, rest) ← textAs "variant identifier" tokens
    named s
    return (s, rest)
  | .beginObject :: rest =>
    match depth with
    | 0 => .error .tooDeep
    | _ + 1 => do
      let (s, rest) ← onlyName rest
      named s
      let rest ← colon rest
      match rest with
      | .null :: .endObject :: rest => return (s, rest)
      | [.null] => throw .endOfObject
      | .null :: _ => throw .expectedValue
      | rest => throw (typeFault "unit" rest)
  | _ => .error .expectedValue

end DidVault.Json
