import DidVault.Address
import DidVault.Did.KeyId
import DidVault.Did.Policy.Wire

/-!
# Verification methods

A verification method publishes a key, in one of three written forms, or holds a
policy.  In JSON an absent key or condition is left out.
-/

namespace DidVault

/-- One entry of a document: a published key or a policy. -/
structure VerificationMethod where
  id : String
  keyType : KeyType
  controller : String
  publicKeyPem : Option String := none
  publicKeyBase58 : Option String := none
  publicKeyMultibase : Option String := none
  conditionAnd : Option (List Policy) := none
  conditionOr : Option (List Policy) := none
  deriving Repr, BEq, Inhabited

namespace VerificationMethod

/-- The published key, in the first of its forms that is present. -/
def material? (m : VerificationMethod) : Option String :=
  m.publicKeyPem <|> m.publicKeyBase58 <|> m.publicKeyMultibase

/-- The hash of the published key; no two methods of a document have the same
one. -/
def materialHash? (m : VerificationMethod) : Option String :=
  m.material?.map fun material => Address.keyHash (Utf8.encode material)

/-- The policy of a method that has a condition. -/
def policy? (m : VerificationMethod) : Option Policy :=
  match m.conditionAnd, m.conditionOr with
  | some children, _ => some (.all children)
  | none, some children => some (.any children)
  | none, none => none

/-- What stands behind the first hash of the id. -/
def fragment? (m : VerificationMethod) : Option String := KeyId.fragment? m.id

/-- How relationships and policies refer to a method. -/
def reference? (m : VerificationMethod) : Option String := KeyId.reference? m.id

/-- The kind of credential that the id says. -/
def credential? (m : VerificationMethod) : Option Credential :=
  KeyId.credential? m.id

/-- A method that publishes a key in PEM. -/
def publishing (id : String) (keyType : KeyType) (controller pem : String) :
    VerificationMethod where
  id
  keyType
  controller
  publicKeyPem := some pem

/-- A method that holds a policy; a single key becomes a choice of one. -/
def holding (id controller : String) (policy : Policy) : VerificationMethod :=
  match policy with
  | .all children =>
    { id, keyType := .conditional, controller, conditionAnd := some children }
  | .any children =>
    { id, keyType := .conditional, controller, conditionOr := some children }
  | .key r =>
    { id, keyType := .conditional, controller, conditionOr := some [.key r] }

/-- A member that is left out when absent. -/
def optionalMember (name : String) (value : Option Json) :
    List (String × Json) :=
  match value with
  | some v => [(name, v)]
  | none => []

/-- A method in JSON. -/
def toJson (m : VerificationMethod) : Json :=
  .object ([("id", .string m.id), ("type", .string m.keyType.name),
      ("controller", .string m.controller)]
    ++ optionalMember "publicKeyPem" (m.publicKeyPem.map .string)
    ++ optionalMember "publicKeyBase58" (m.publicKeyBase58.map .string)
    ++ optionalMember "publicKeyMultibase" (m.publicKeyMultibase.map .string)
    ++ optionalMember Policy.allName
      (m.conditionAnd.map (.array ∘ Policy.listToJson))
    ++ optionalMember Policy.anyName
      (m.conditionOr.map (.array ∘ Policy.listToJson)))

open Json in
/-- The fields of a method. -/
def shape : Shape VerificationMethod where
  title := "struct VerificationKey"
  blank := ⟨"", .conditional, "", none, none, none, none, none⟩
  fields :=
    [.of "id" true (fun _ => text) ({ · with id := · }),
     .of "type" true KeyType.read ({ · with keyType := · }),
     .of "controller" true (fun _ => text) ({ · with controller := · }),
     .of "publicKeyPem" false (fun _ => optional text)
       ({ · with publicKeyPem := · }),
     .of "publicKeyBase58" false (fun _ => optional text)
       ({ · with publicKeyBase58 := · }),
     .of "publicKeyMultibase" false (fun _ => optional text)
       ({ · with publicKeyMultibase := · }),
     .of "conditionAnd" false (fun depth => optional (items Policy.read depth))
       ({ · with conditionAnd := · }),
     .of "conditionOr" false (fun depth => optional (items Policy.read depth))
       ({ · with conditionOr := · })]

/-- Reads a method. -/
def read (depth : Nat) : Json.Reader VerificationMethod :=
  shape.read depth

end VerificationMethod

end DidVault
