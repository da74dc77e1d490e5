import DidVault.Did.BinderKey
import DidVault.Did.Recovery
import DidVault.Keys.Custody
import DidVault.Timestamp

/-!
# Issuing credentials

Issuing publishes a key of one kind of credential on an identifier: its method
has the fragment and the relationships of that kind, and the query of its id
says when it was issued and as what.

The identifier is part of the state, since an operation that fails may have
changed it before.
-/

namespace DidVault

/-- The id and the query of an issued method. -/
structure Issued where
  keyId : String
  query : String
  deriving Repr, DecidableEq

/-- How relationships refer to an issued method. -/
def Issued.reference (issued : Issued) : String :=
  Names.reference ((KeyId.fragment? issued.keyId).getD "")

/-- An operation that works on an identifier at a desk. -/
abbrev IssueM := ExceptT Error (StateM (Identifier × Desk))

namespace IssueM

/-- Does an operation on accounts. -/
def atDesk {α : Type} (op : DeskM α) : IssueM α := do
  let (identifier, desk) ← get
  let (outcome, desk) := op.run.run desk
  set (identifier, desk)
  match outcome with
  | .ok a => return a
  | .error e => throw e

/-- The identifier. -/
def identifier : IssueM Identifier :=
  return (← get).1

/-- Replaces the identifier. -/
def setIdentifier (i : Identifier) : IssueM Unit :=
  modify fun (_, desk) => (i, desk)

/-- Does an operation from a given identifier on, and returns the identifier at
the end. -/
def onIdentifier {α : Type} (i : Identifier) (op : IssueM α) :
    DeskM (α × Identifier) := do
  let (outcome, (i, desk)) := op.run.run (i, ← get)
  set desk
  match outcome with
  | .ok a => return (a, i)
  | .error e => throw e

end IssueM

namespace Issuing

open IssueM

/-- The query of a credential issued at a time. -/
def baseQuery (time : Timestamp) (kind : Credential) : String :=
  Names.versionTime ++ "=" ++ time.render ++ "&" ++ kind.queryPair

/-- A further parameter; one without a value has no equals sign. -/
def parameter (name value : String) : String :=
  "&" ++ name ++ (if value.isEmpty then "" else "=" ++ value)

/-- The query of a key that was handed in: that of its credential, and the other
parameters of its id. -/
def forwardedQuery (time : Timestamp) (kind : Credential) (key : BinderKey) :
    String :=
  let others := (KeyId.queryParams key.id).filter fun (name, _) =>
    name != Names.versionTime && name != Names.credentialType
  baseQuery time kind ++
    String.join (others.map fun (name, value) => parameter name value)

/-- Publishes a key as a credential. -/
def publish (kind : Credential) (keyType : KeyType) (pem query : String)
    (index : Option Nat) : IssueM Issued := do
  let i ← identifier
  match i.addMethod keyType pem query kind.fragment index with
  | .error e => throw (.did e)
  | .ok (i, keyId) =>
    setIdentifier (kind.relationships.foldl
      (fun i r => i.relate r (Names.reference kind.fragment)) i)
    return { keyId, query }

/-- Publishes a key that was handed in. -/
def publishExternal (time : Timestamp) (kind : Credential) (key : BinderKey) :
    IssueM Issued := do
  match key.checkIntegrity with
  | .error e => throw (.did e)
  | .ok () =>
    if key.keyType = .rsa ∧ ¬ Rsa.isPublicPem key.publicKeyPem then
      throw (.key .invalidKey)
    else
      publish kind key.keyType key.publicKeyPem
        (forwardedQuery time kind key) none

/-- Publishes the account's own key. -/
def addDevice (time : Timestamp) (account : String) : IssueM Issued := do
  let pair ← atDesk (Custody.spaceKey account)
  publish .device .rsa pair.publicPem (baseQuery time .device) none

/-- Publishes the client's own key, which has to be there. -/
def addBinder (time : Timestamp) (keys : List BinderKey) : IssueM Issued :=
  match BinderKey.binder? keys with
  | some key => publishExternal time .binder key
  | none => throw (.notFound "binder verification method")

/-- Publishes the client's password key, if it is there. -/
def addPasswordOnBinder (time : Timestamp) (keys : List BinderKey) :
    IssueM (Option Issued) := do
  match BinderKey.passwordOnBinder? keys with
  | some key => return some (← publishExternal time .passwordOnBinder key)
  | none => return none

/-- Publishes a new password key of the account in place of the old one, which
is removed with its record first. -/
def addPasswordOnDevice (time : Timestamp) (account password : String) :
    IssueM (Issued × PasswordKey) := do
  let i ← identifier
  let index := i.positionOf .passwordOnDevice
  setIdentifier (i.removeHolding Credential.passwordOnDevice.queryPair).1
  atDesk (Custody.delete account)
  let key ← atDesk (Custody.passwordKey account password)
  let issued ←
    publish .passwordOnDevice .rsa key.pair.publicPem
      (baseQuery time .passwordOnDevice) index
  return (issued, key)

/-- Installs the recovery policy over anchors and other keys, and returns the id
of its method. -/
def addRecovery (anchors others : List String) : IssueM String := do
  let i ← identifier
  match i.recoveryPolicy anchors others with
  | .error e => throw (.did e)
  | .ok policy =>
    let seed ← atDesk (DeskM.draw Identifier.seedLength .abandoned)
    setIdentifier (i.installPolicy policy seed)
    return Identifier.policyId seed

/-- Installs the recovery policy over the credentials that are published. -/
def composeRecovery : IssueM String := do
  let i ← identifier
  addRecovery i.anchorReferences i.coSignerReferences

end Issuing

end DidVault
