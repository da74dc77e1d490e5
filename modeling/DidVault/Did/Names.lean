/-!
# The names of the method

The words that make up DIDs, documents and the ids of keys.
-/

namespace DidVault.Names

/-- The method of an account's DID. -/
def spaceMethod : String := "aospace"

/-- The method of the DID of a single key. -/
def keyMethod : String := "aospacekey"

/-- What every account's DID begins with. -/
def spaceStart : String := "did:" ++ spaceMethod ++ ":"

/-- What the DID of every key begins with. -/
def keyStart : String := "did:" ++ keyMethod ++ ":"

/-- The fragment of an account's DID, unless it was given another one. -/
def defaultFragment : String := "did0"

/-- The fragment of the node that holds the recovery policy. -/
def recoveryFragment : String := "multisig-0"

/-- The contexts of a new document. -/
def contexts : List String :=
  ["https://www.w3.org/ns/did/v1",
    "https://w3id.org/security/suites/secp256k1recovery-2020/v2"]

/-- The query parameter that holds the time of issue. -/
def versionTime : String := "versionTime"

/-- The query parameter that holds the kind of credential. -/
def credentialType : String := "credentialType"

/-- A fragment as relationships and policies refer to it. -/
def reference (fragment : String) : String := "#" ++ fragment

end DidVault.Names
