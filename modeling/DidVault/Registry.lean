import DidVault.Issuing

/-!
# The registry

What the owner of the device can do with accounts: create the document of an
account, read it, give it a new password or a new password key, and look
accounts and DIDs up.

Operations that write do so as a whole or not at all, unless they are part of a
transaction of the caller, who then decides about it.
-/

namespace DidVault

/-- How an account is found. -/
inductive Lookup where
  | account (id : String)
  | did (did : String)
  deriving Repr, DecidableEq

/-- What comes out of issuing a document. -/
structure IssuedDocument where
  did : String
  /-- The canonical bytes, as they are stored. -/
  document : Bytes
  /-- The wrapped password key, as it is stored. -/
  wrapped : Bytes
  deriving Repr, DecidableEq

namespace Registry

open DeskM

/-- The DID of an account, as the index has it. -/
def resolveDid : Lookup → DeskM String
  | .did did => return normalizeDid did
  | .account account => do
    match ← records (.didOf? account) with
    | some did => return did
    | none => throw (.notFound ("DID for aoId " ++ account))

/-- The account of a DID, as the index has it. -/
def resolveAccount : Lookup → DeskM String
  | .account account => return account
  | .did did => do
    match ← records (.accountOf? did) with
    | some account => return account
    | none => throw (.notFound ("aoId for " ++ normalizeDid did))

/-- The stored document of a DID. -/
def documentOf (did : String) : DeskM Bytes := do
  match ← records (.document? did) with
  | some bytes => return bytes
  | none => throw (.notFound ("document for " ++ did))

/-- Reads a stored document. -/
def readDocument (bytes : Bytes) : DeskM Document :=
  match Document.parse bytes with
  | .ok d => return d
  | .error fault => throw (.did (.serialization fault))

/-- Stores the document of an identifier in place of the account's document
before, and indexes it. -/
def store (account : String) (i : Identifier) (wrapped : Bytes) :
    DeskM IssuedDocument := do
  let document := i.toDocument
  ofDid document.validate
  let canonical := document.canonicalBytes
  match ← records (.didOf? account) with
  | some previous =>
    if previous ≠ normalizeDid i.did then records (.deleteDocument previous)
  | none => pure ()
  records (.putDocument i.did canonical)
  records (.saveIndex account i.did)
  return { did := i.did, document := canonical, wrapped }

/-- Issues the credentials of a new document. -/
def issueAll (now : Timestamp) (account password : String)
    (keys : List BinderKey) : IssueM PasswordKey := do
  let _ ← Issuing.addDevice now account
  let _ ← Issuing.addBinder now keys
  let (_, key) ← Issuing.addPasswordOnDevice now account password
  let _ ← Issuing.addPasswordOnBinder now keys
  let _ ← Issuing.composeRecovery
  return key

/-- Creates the document of an account.  An account that has one keeps its own
key, and with it its DID. -/
def create (now : Timestamp) (account password : String)
    (keys : List BinderKey) : DeskM IssuedDocument :=
  transactionally do
    let (key, i) ← IssueM.onIdentifier .new (issueAll now account password keys)
    store account i key.wrapped

/-- Issues a new password key and composes the recovery policy anew. -/
def reissuePassword (now : Timestamp) (account password : String) :
    IssueM PasswordKey := do
  let i ← IssueM.identifier
  IssueM.setIdentifier (i.removeFragment Names.recoveryFragment).1
  let (_, key) ← Issuing.addPasswordOnDevice now account password
  let _ ← Issuing.composeRecovery
  return key

/-- Replaces the password key of an account by a new one under a new
password. -/
def reset (now : Timestamp) (lookup : Lookup) (password : String) :
    DeskM IssuedDocument :=
  transactionally do
    let account ← resolveAccount lookup
    let did ← resolveDid (.account account)
    let document ← readDocument (← documentOf did)
    let i ← ofDid (Identifier.ofDocument document)
    let (key, i) ← IssueM.onIdentifier i (reissuePassword now account password)
    store account i key.wrapped

/-- The canonical bytes of an account's document. -/
def document (lookup : Lookup) : DeskM Bytes := do
  documentOf (← resolveDid lookup)

/-- An account's document. -/
def resolve (lookup : Lookup) : DeskM Document := do
  readDocument (← document lookup)

/-- An account's wrapped password key. -/
def wrapped? (account : String) : DeskM (Option Bytes) :=
  Custody.wrapped? account

/-- Wraps an account's password key under a new password. -/
def updatePassword (account old new : String) : DeskM Bytes :=
  transactionally (Custody.rotate account old new)

/-- Indexes an account under a DID. -/
def saveIndex (account did : String) : DeskM Unit :=
  transactionally (records (.saveIndex account did))

/-- The DID of an account. -/
def didOf? (account : String) : DeskM (Option String) :=
  records (.didOf? account)

/-- The account of a DID. -/
def accountOf? (did : String) : DeskM (Option String) :=
  records (.accountOf? did)

/-- Every indexed account with its DID, in the order of the accounts. -/
def accounts : DeskM (List (String × String)) := do
  match (← get).view.committed.accounts with
  | .ok rows => return rows
  | .error e => throw (.store e)

end Registry

end DidVault
