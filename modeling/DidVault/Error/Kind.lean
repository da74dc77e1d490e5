import DidVault.Did.Url.Parser

/-!
# Kinds of failure

Every failure is of one kind and has a detail.  `ErrorKind.report` puts the two
into words, so that what a caller is told depends on nothing else.
-/

namespace DidVault

/-- What went wrong. -/
inductive ErrorKind where
  | parse
  | didParse
  | duplicateKey
  | integrity
  | missingKeyMaterial
  | invalidPolicy
  | invalidDocument
  | didSerialization
  | keyGeneration
  | invalidKey
  | encrypt
  | decrypt
  | malformedBlob
  | storage
  | transaction
  | notFound
  | storeSerialization
  | storeTransaction
  | storeUnavailable
  deriving Repr, DecidableEq

namespace ErrorKind

/-- The words for a failure of a kind.  The detail is a hash for `duplicateKey`,
an id for `integrity` and `missingKeyMaterial`, and words for the others. -/
def report (kind : ErrorKind) (detail : String) : String :=
  match kind with
  | parse | didParse => detail
  | duplicateKey =>
    "verification method with key hash " ++ detail ++ " already exists"
  | integrity => "binder key does not match its declared id " ++ detail
  | missingKeyMaterial =>
    "verification method " ++ detail ++ " has no public key material"
  | invalidPolicy => "invalid access structure: " ++ detail
  | invalidDocument => "invalid document: " ++ detail
  | didSerialization => "serialization error: " ++ detail
  | keyGeneration => "key generation failed: " ++ detail
  | invalidKey => "invalid key material: " ++ detail
  | encrypt => "encryption failed: " ++ detail
  | decrypt => "decryption failed -- wrong password or corrupted key"
  | malformedBlob => "malformed wrapped key: " ++ detail
  | storage => "storage error: " ++ detail
  | transaction => "transaction error: " ++ detail
  | notFound => "not found: " ++ detail
  | storeSerialization => "serialization error: " ++ detail
  | storeTransaction => "transaction failed: " ++ detail
  | storeUnavailable => "sled error: " ++ detail

/-- Whether the failure is that something does not exist. -/
def isNotFound (kind : ErrorKind) : Bool := kind == notFound

/-- Whether the failure is that a key is already published. -/
def isDuplicateKey (kind : ErrorKind) : Bool := kind == duplicateKey

end ErrorKind

end DidVault
