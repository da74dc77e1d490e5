import DidVault.Records.View

/-!
# The records of accounts

An account has up to five records: its own key in the clear, its password key
wrapped, the document of its DID, and the two directions of the index between
accounts and DIDs.

| Key                              | Value                        |
|----------------------------------|------------------------------|
| `key--space_rsa_pri--<account>`    | the account's private key in PEM |
| `key--password_rsa_pri--<account>` | the wrapped password key     |
| `doc--did_doc--<did>`              | the canonical document       |
| `index--aoid_to_did--<account>`    | the DID                      |
| `index--did_to_aoid--<did>`        | the account                  |

A DID stands in a key without its query and fragment (`normalizeDid`).
-/

namespace DidVault

/-- A DID without its query and fragment. -/
def normalizeDid (did : String) : String :=
  String.ofList (did.toList.takeWhile fun c => c != '?' && c != '#')

namespace RecordKey

/-- The key of a record: its group, its kind and whose it is. -/
def of (group kind owner : String) : String :=
  group ++ "--" ++ kind ++ "--" ++ owner

/-- The key of an account's own key. -/
def spaceKey (account : String) : String := of "key" "space_rsa_pri" account

/-- The key of an account's password key. -/
def passwordKey (account : String) : String :=
  of "key" "password_rsa_pri" account

/-- The key of the document of a DID. -/
def document (did : String) : String := of "doc" "did_doc" (normalizeDid did)

/-- The key of the DID of an account. -/
def didOf (account : String) : String := of "index" "aoid_to_did" account

/-- The key of the account of a DID. -/
def accountOf (did : String) : String :=
  of "index" "did_to_aoid" (normalizeDid did)

/-- What the keys of the DIDs of all accounts begin with. -/
def didsStart : String := of "index" "aoid_to_did" ""

end RecordKey

namespace RecordsM

/-- An account's own key. -/
def spaceKey? (account : String) : RecordsM (Option String) :=
  readText? "space key" (RecordKey.spaceKey account)

/-- Stores an account's own key. -/
def putSpaceKey (account pem : String) : RecordsM Unit :=
  put (RecordKey.spaceKey account) (Utf8.encode pem)

/-- An account's wrapped password key. -/
def passwordKey? (account : String) : RecordsM (Option Bytes) :=
  read? (RecordKey.passwordKey account)

/-- Stores an account's wrapped password key. -/
def putPasswordKey (account : String) (wrapped : Bytes) : RecordsM Unit :=
  put (RecordKey.passwordKey account) wrapped

/-- Removes an account's wrapped password key. -/
def deletePasswordKey (account : String) : RecordsM Unit :=
  delete (RecordKey.passwordKey account)

/-- The document of a DID. -/
def document? (did : String) : RecordsM (Option Bytes) :=
  read? (RecordKey.document did)

/-- Stores the document of a DID. -/
def putDocument (did : String) (canonical : Bytes) : RecordsM Unit :=
  put (RecordKey.document did) canonical

/-- Removes the document of a DID. -/
def deleteDocument (did : String) : RecordsM Unit :=
  delete (RecordKey.document did)

/-- The DID of an account. -/
def didOf? (account : String) : RecordsM (Option String) :=
  readText? "indexed DID" (RecordKey.didOf account)

/-- The account of a DID. -/
def accountOf? (did : String) : RecordsM (Option String) :=
  readText? "indexed aoId" (RecordKey.accountOf did)

/-- Indexes an account under a DID.  What pointed from the account's DID before
to the account, and from the account of the DID before to the DID, is removed,
so that the index stays one to one. -/
def saveIndex (account did : String) : RecordsM Unit := do
  let did := normalizeDid did
  match ← didOf? account with
  | some previous =>
    if previous ≠ did then delete (RecordKey.accountOf previous)
  | none => pure ()
  match ← accountOf? did with
  | some previous =>
    if previous ≠ account then delete (RecordKey.didOf previous)
  | none => pure ()
  put (RecordKey.didOf account) (Utf8.encode did)
  put (RecordKey.accountOf did) (Utf8.encode account)

end RecordsM

/-- Every indexed account with its DID, in the order of the accounts. -/
def Records.accounts (records : Records) :
    Except StoreError (List (String × String)) := do
  let rows ← Records.scan records RecordKey.didsStart
  rows.mapM fun (key, value) =>
    let account := String.ofList (key.toList.drop RecordKey.didsStart.length)
    match Utf8.decode value with
    | .ok did => .ok (account, did)
    | .error fault =>
      .error (.notText ("indexed DID of aoId " ++ account) fault)

end DidVault
