import DidVault.Did.Method
import DidVault.Error.Did

/-!
# Keys handed in by the client

The paired client hands in public keys of its own.  The id that comes with such
a key has to hold the hash of the key; its query may say which credential the
key is for, and may have further parameters.
-/

namespace DidVault

/-- A public key that the paired client hands in. -/
structure BinderKey where
  id : String
  keyType : KeyType
  publicKeyPem : String
  deriving Repr, DecidableEq, Inhabited

namespace BinderKey

/-- The kind of credential that the id says. -/
def credential? (key : BinderKey) : Option Credential :=
  KeyId.credential? key.id

/-- Checks that the id holds the hash of the key. -/
def checkIntegrity (key : BinderKey) : Except DidError Unit :=
  if Text.holds (Address.keyHash (Utf8.encode key.publicKeyPem)) key.id then
    .ok ()
  else .error (.integrity key.id)

/-- A key in JSON. -/
def toJson (key : BinderKey) : Json :=
  .object [("id", .string key.id), ("type", .string key.keyType.name),
    ("publicKeyPem", .string key.publicKeyPem)]

open Json in
/-- The fields of a key. -/
def shape : Shape BinderKey where
  title := "struct BinderKey"
  blank := ⟨"", .conditional, ""⟩
  fields :=
    [.of "id" true (fun _ => text) ({ · with id := · }),
     .of "type" true KeyType.read ({ · with keyType := · }),
     .of "publicKeyPem" true (fun _ => text) ({ · with publicKeyPem := · })]

/-- The key that is published as the client's own: the first that says so, else
the first that is not for its password. -/
def binder? (keys : List BinderKey) : Option BinderKey :=
  keys.find? (·.credential? == some .binder)
    <|> keys.find? (·.credential? != some .passwordOnBinder)

/-- The key that is published as the client's password key. -/
def passwordOnBinder? (keys : List BinderKey) : Option BinderKey :=
  keys.find? (·.credential? == some .passwordOnBinder)

/-- Reads a list of keys from JSON text. -/
def parseList (bytes : Bytes) : Except Json.Fault (List BinderKey) :=
  Json.readAll (Json.items shape.read Json.maxDepth) bytes

end BinderKey

end DidVault
