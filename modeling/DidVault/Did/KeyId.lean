import DidVault.Did.Kinds
import DidVault.Text.Cut

/-!
# Reading the ids of keys

The id of a key is a DID URL, but it is looked at only for what stands behind
its first hash and its first question mark:
`did:aospacekey:<hash>?<name>=<value>&...#<fragment>`.
-/

namespace DidVault.KeyId

/-- What stands behind the first hash. -/
def fragment? (id : String) : Option String :=
  (Text.cut '#' id).2

/-- The fragment as relationships and policies refer to it. -/
def reference? (id : String) : Option String :=
  (fragment? id).map Names.reference

/-- What stands between the first question mark and the first hash. -/
def query? (id : String) : Option String :=
  (Text.cut '?' (Text.cut '#' id).1).2

/-- A query parameter; without an equals sign its value is empty. -/
def pair (cs : List Char) : String × String :=
  let (name, value) := Text.cutChars '=' cs
  (String.ofList name, String.ofList (value.getD []))

/-- The parameters of a query, in order; empty ones do not count. -/
def pairsOf (query : String) : List (String × String) :=
  ((query.toList.splitOn '&').filter (!·.isEmpty)).map pair

/-- The query parameters of an id. -/
def queryParams (id : String) : List (String × String) :=
  match query? id with
  | some query => pairsOf query
  | none => []

/-- The kind of credential that the first parameter of that name says. -/
def credential? (id : String) : Option Credential :=
  ((queryParams id).find? (·.1 == Names.credentialType)).bind fun (_, value) =>
    Credential.ofName? value

end DidVault.KeyId
