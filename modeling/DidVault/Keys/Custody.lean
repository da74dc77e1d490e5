import DidVault.Desk
import DidVault.Keys.Wrapping
import DidVault.Records.Accounts

/-!
# Keeping keys

An account has two private keys: its own, stored in the clear, and its password
key, stored wrapped. Each is made when it is first asked for.
-/

namespace DidVault

/-- A password key and its wrapped form, as it is stored. -/
structure PasswordKey where
  wrapped : Bytes
  pair : KeyPair
  deriving Repr, DecidableEq, Inhabited

namespace Custody

open DeskM

/-- Wraps a private key under a password, from a first block that is drawn. -/
def wrap (plaintext : Bytes) (password : String) : DeskM Bytes := do
  let iv ← draw Cbc.blockLength (.key .noEntropy)
  return Wrapping.wrapWith iv plaintext password

/-- The account's own key. -/
def spaceKey (account : String) : DeskM KeyPair := do
  match ← records (.spaceKey? account) with
  | some pem =>
    match KeyPair.ofPrivatePem pem with
    | some pair => return pair
    | none => throw (.key .invalidKey)
  | none =>
    let pair ← takeOrMake .space
    records (.putSpaceKey account pair.privatePem)
    return pair

/-- The account's password key, opened or made under a password. -/
def passwordKey (account password : String) : DeskM PasswordKey := do
  match ← records (.passwordKey? account) with
  | some wrapped =>
    let pair ← ofKeys (Wrapping.unwrapKey wrapped password)
    return { wrapped, pair }
  | none =>
    let pair ← takeOrMake .password
    let wrapped ← wrap (Utf8.encode pair.privatePem) password
    records (.putPasswordKey account wrapped)
    return { wrapped, pair }

/-- The account's password key as it is stored. -/
def wrapped? (account : String) : DeskM (Option Bytes) :=
  records (.passwordKey? account)

/-- Wraps the account's password key under a new password. -/
def rotate (account old new : String) : DeskM Bytes := do
  match ← records (.passwordKey? account) with
  | none => throw (.notFound ("password key for aoId " ++ account))
  | some wrapped =>
    let pair ← ofKeys (Wrapping.unwrapKey wrapped old)
    let rewrapped ← wrap (Utf8.encode pair.privatePem) new
    records (.putPasswordKey account rewrapped)
    return rewrapped

/-- Removes the account's password key. -/
def delete (account : String) : DeskM Unit :=
  records (.deletePasswordKey account)

end Custody

end DidVault
