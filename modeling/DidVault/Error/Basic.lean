import DidVault.Error.Did
import DidVault.Error.Keys
import DidVault.Records.View

/-!
# Failures of operations

An operation on accounts fails for a reason of one of its parts, or because
something that it needs does not exist.
-/

namespace DidVault

/-- Why an operation on accounts fails. -/
inductive Error where
  | parse (e : DidUrl.ParseError)
  | did (e : DidError)
  | key (e : KeyError)
  | store (e : StoreError)
  | notFound (what : String)
  /-- The source of randomness ran dry where nothing can go on without it. -/
  | abandoned
  deriving Repr, DecidableEq

namespace Error

/-- The kind of an error. -/
def kind : Error → ErrorKind
  | parse _ => .parse
  | did e => e.kind
  | key e => e.kind
  | store (.transaction _) => .transaction
  | store _ => .storage
  | notFound _ => .notFound
  | abandoned => .encrypt

/-- The detail of an error. -/
def detail : Error → String
  | parse e => e.message
  | did e => e.detail
  | key e => e.detail
  | store (.transaction detail) => detail
  | store e => e.message
  | notFound what => what
  | abandoned => KeyError.noEntropy.detail

/-- The words of an error. -/
def message (e : Error) : String :=
  e.kind.report e.detail

end Error

end DidVault
