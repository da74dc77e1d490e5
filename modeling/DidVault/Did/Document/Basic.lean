import DidVault.Did.Method
import DidVault.Json.Canonical

/-!
# Documents

A document is what an account publishes under its DID: its verification methods
and what each may be used for.  In JSON an absent controller and empty
relationships are left out.
-/

namespace DidVault

/-- A published document. -/
structure Document where
  context : List String
  id : String
  controller : Option String := none
  methods : List VerificationMethod := []
  relationships : Relationships := {}
  deriving Repr, BEq, Inhabited

namespace Document

/-- The members of the relationships that are not empty. -/
def relationshipMembers (lists : Relationships) : List (String × Json) :=
  (lists.named.filter (!·.2.isEmpty)).map fun (name, references) =>
    (name, .array (references.map .string))

/-- A document in JSON. -/
def toJson (d : Document) : Json :=
  .object ([("@context", .array (d.context.map .string)), ("id", .string d.id)]
    ++ VerificationMethod.optionalMember "controller" (d.controller.map .string)
    ++ [("verificationMethod",
      .array (d.methods.map VerificationMethod.toJson))]
    ++ relationshipMembers d.relationships)

/-- The canonical bytes of a document: these are stored, hashed and
exchanged. -/
def canonicalBytes (d : Document) : Bytes :=
  d.toJson.canonicalBytes

/-- The text of a document for people. -/
def pretty (d : Document) : String :=
  d.toJson.pretty

/-- Reads a list of texts. -/
def texts (depth : Nat) : Json.Reader (List String) :=
  Json.items (fun _ => Json.text) depth

/-- The field of a relationship. -/
def relationshipField (r : Relationship) : Json.Field Document :=
  .of r.name false texts fun d references =>
    { d with relationships := d.relationships.set r references }

open Json in
/-- The fields of a document. -/
def shape : Shape Document where
  title := "struct Document"
  blank := ⟨[], "", none, [], {}⟩
  fields :=
    [.of "@context" true texts ({ · with context := · }),
     .of "id" true (fun _ => text) ({ · with id := · }),
     .of "controller" false (fun _ => optional text)
       ({ · with controller := · }),
     .of "verificationMethod" false (items VerificationMethod.read)
       ({ · with methods := · })]
    ++ Relationship.all.map relationshipField

/-- Reads a document from JSON text, canonical or not. -/
def parse (bytes : Bytes) : Except Json.Fault Document :=
  Json.readAll (shape.read Json.maxDepth) bytes

end Document

end DidVault
