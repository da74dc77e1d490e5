import DidVault.Digest.Ripemd160
import DidVault.Digest.Sha3
import DidVault.Text.Base58
import DidVault.Text.Base64

/-!
# Content addresses

A public key is named by a digest of its published text.  Both kinds of name
frame the digest in the same way: two version bytes in front, and behind it the
first four bytes of the SHA3-256 digest of what comes before (`frame`).

* `spaceId` names an account's DID: RIPEMD-160 of SHA3-256, in Base58.
* `keyHash` names one key in the id of its verification method: the first eight
  bytes of SHA3-256, in Base64.
-/

namespace DidVault.Address

/-- The bytes in front of every digest. -/
def version : Bytes := [0, 0]

/-- The number of checksum bytes. -/
def checksumLength : Nat := 4

/-- The number of digest bytes in the hash of a key. -/
def keyDigestLength : Nat := 8

/-- The checksum of a byte string. -/
def checksum (payload : Bytes) : Bytes :=
  (Sha3.hash payload).take checksumLength

/-- A digest between its version and its checksum. -/
def frame (digest : Bytes) : Bytes :=
  version ++ digest ++ checksum (version ++ digest)

/-- The method-specific identifier of an account whose published key is
`key`. -/
def spaceId (key : Bytes) : String :=
  Base58.encode (frame (Ripemd160.hash (Sha3.hash key)))

/-- The short hash of published key material. -/
def keyHash (material : Bytes) : String :=
  Base64.encode (frame ((Sha3.hash material).take keyDigestLength))

/-- Whether a byte string ends in the checksum of what stands in front of it. -/
def checksumMatches (bytes : Bytes) : Bool :=
  decide (version.length + checksumLength ≤ bytes.length) &&
    bytes.drop (bytes.length - checksumLength)
      == checksum (bytes.take (bytes.length - checksumLength))

end DidVault.Address
