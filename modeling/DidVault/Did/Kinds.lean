import DidVault.Did.Names
import DidVault.Json.Record

/-!
# Kinds of keys, credentials and relationships

* A `KeyType` says how the key of a verification method is written; one of the
  four stands for methods that hold a policy instead of a key.
* A `Credential` says whose key a method publishes.
* A `Relationship` says what a method may be used for.
-/

namespace DidVault

/-- How the key of a verification method is written. -/
inductive KeyType where
  | ed25519
  | rsa
  | secp256k1
  /-- A policy in place of a key. -/
  | conditional
  deriving Repr, DecidableEq, Inhabited

namespace KeyType

/-- Every type of key. -/
def all : List KeyType := [ed25519, rsa, secp256k1, conditional]

/-- The name of a type of key. -/
def name : KeyType → String
  | ed25519 => "Ed25519VerificationKey2020"
  | rsa => "RsaVerificationKey2018"
  | secp256k1 => "EcdsaSecp256k1VerificationKey2019"
  | conditional => "ConditionalProof2022"

/-- The type of key of a name. -/
def ofName? (s : String) : Option KeyType :=
  all.find? (·.name == s)

/-- Reads a type of key. -/
def read (depth : Nat) : Json.Reader KeyType := fun tokens => do
  let (s, rest) ← Json.variant (all.map name) depth tokens
  return ((ofName? s).getD conditional, rest)

end KeyType

/-- Whose key a verification method publishes. -/
inductive Credential where
  /-- The key that the device holds for the account. -/
  | device
  /-- A key that the paired client holds. -/
  | binder
  /-- A key behind a password, held on the device. -/
  | passwordOnDevice
  /-- A key behind a password, held by the paired client. -/
  | passwordOnBinder
  deriving Repr, DecidableEq, Inhabited

namespace Credential

/-- Every kind of credential. -/
def all : List Credential :=
  [device, binder, passwordOnDevice, passwordOnBinder]

/-- The name of a kind of credential. -/
def name : Credential → String
  | device => "device"
  | binder => "binder"
  | passwordOnDevice => "passwordondevice"
  | passwordOnBinder => "passwordonbinder"

/-- The kind of credential of a name. -/
def ofName? (s : String) : Option Credential :=
  all.find? (·.name == s)

/-- The query parameter that says the kind. -/
def queryPair (kind : Credential) : String :=
  Names.credentialType ++ "=" ++ kind.name

/-- The fragment of the method that publishes a credential. -/
def fragment : Credential → String
  | device => "key-0"
  | binder => "key-1"
  | passwordOnDevice => "key-2"
  | passwordOnBinder => "key-3"

end Credential

/-- What a verification method may be used for. -/
inductive Relationship where
  | authentication
  | assertionMethod
  | keyAgreement
  | capabilityInvocation
  | capabilityDelegation
  deriving Repr, DecidableEq, Inhabited

namespace Relationship

/-- Every relationship, in the order of a document. -/
def all : List Relationship :=
  [authentication, assertionMethod, keyAgreement, capabilityInvocation,
    capabilityDelegation]

/-- The name of a relationship. -/
def name : Relationship → String
  | authentication => "authentication"
  | assertionMethod => "assertionMethod"
  | keyAgreement => "keyAgreement"
  | capabilityInvocation => "capabilityInvocation"
  | capabilityDelegation => "capabilityDelegation"

/-- The relationship of a name. -/
def ofName? (s : String) : Option Relationship :=
  all.find? (·.name == s)

end Relationship

/-- The relationships that an issued credential enters. -/
def Credential.relationships : Credential → List Relationship
  | device => [.authentication, .assertionMethod, .capabilityDelegation]
  | binder => [.authentication, .assertionMethod]
  | passwordOnDevice | passwordOnBinder => [.authentication]

/-- For each relationship, the references of the methods in it. -/
structure Relationships where
  authentication : List String := []
  assertionMethod : List String := []
  keyAgreement : List String := []
  capabilityInvocation : List String := []
  capabilityDelegation : List String := []
  deriving Repr, DecidableEq, Inhabited

namespace Relationships

/-- The references in one relationship. -/
def get (lists : Relationships) : Relationship → List String
  | .authentication => lists.authentication
  | .assertionMethod => lists.assertionMethod
  | .keyAgreement => lists.keyAgreement
  | .capabilityInvocation => lists.capabilityInvocation
  | .capabilityDelegation => lists.capabilityDelegation

/-- Replaces the references in one relationship. -/
def set (lists : Relationships) (r : Relationship) (references : List String) :
    Relationships :=
  match r with
  | .authentication => { lists with authentication := references }
  | .assertionMethod => { lists with assertionMethod := references }
  | .keyAgreement => { lists with keyAgreement := references }
  | .capabilityInvocation => { lists with capabilityInvocation := references }
  | .capabilityDelegation => { lists with capabilityDelegation := references }

/-- Changes the references in every relationship. -/
def map (f : List String → List String) (lists : Relationships) :
    Relationships where
  authentication := f lists.authentication
  assertionMethod := f lists.assertionMethod
  keyAgreement := f lists.keyAgreement
  capabilityInvocation := f lists.capabilityInvocation
  capabilityDelegation := f lists.capabilityDelegation

/-- Adds a reference to a relationship that does not have it yet. -/
def add (lists : Relationships) (r : Relationship) (reference : String) :
    Relationships :=
  if reference ∈
    lists.get r then lists else lists.set r (lists.get r ++ [reference])

/-- The relationships by name, in the order of a document. -/
def named (lists : Relationships) : List (String × List String) :=
  Relationship.all.map fun r => (r.name, lists.get r)

end Relationships

end DidVault
