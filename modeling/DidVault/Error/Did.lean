import DidVault.Did.Names
import DidVault.Error.Kind
import DidVault.Json.Fault

/-!
# Failures of documents and identifiers
-/

namespace DidVault

/-- Why a policy cannot be composed or installed. -/
inductive PolicyFault where
  | noAnchor
  | tooFewKeys (count : Nat)
  | unknownReference (reference : String)
  deriving Repr, DecidableEq

/-- The words of a fault of a policy. -/
def PolicyFault.message : PolicyFault → String
  | noAnchor => "the first group needs at least one key"
  | tooFewKeys count =>
    "need at least two distinct keys, got " ++ toString count
  | unknownReference r => "unknown method reference '" ++ r ++ "'"

/-- Why a document is not sound. -/
inductive DocumentFault where
  | foreignSubject (id : String)
  | noMethods
  | foreignMethod (id : String)
  | bothConditions (id : String)
  | unknownReference (relationship reference : String)
  | unknownPolicyReference (id reference : String)
  | subjectMismatch (found derived : String)
  deriving Repr, DecidableEq

/-- The words of a fault of a document. -/
def DocumentFault.message : DocumentFault → String
  | foreignSubject id =>
    "subject '" ++ id ++ "' is not a did:" ++ Names.spaceMethod ++ " identifier"
  | noMethods => "document has no verification methods"
  | foreignMethod id =>
    "method id '" ++ id ++ "' is not a did:" ++ Names.keyMethod ++ " identifier"
  | bothConditions id =>
    "method '" ++ id ++ "' carries both conditionAnd and conditionOr"
  | unknownReference relationship r =>
    relationship ++ " references unknown method '" ++ r ++ "'"
  | unknownPolicyReference id r =>
    "access structure '" ++ id ++ "' references unknown method '" ++ r ++ "'"
  | subjectMismatch found derived =>
    "subject id '" ++ found ++ "' does not match its key material (expected '"
      ++ derived ++ "')"

/-- Why an operation on a document or identifier fails. -/
inductive DidError where
  | parse (e : DidUrl.ParseError)
  | duplicateKey (hash : String)
  | integrity (id : String)
  | missingKeyMaterial (id : String)
  | policy (fault : PolicyFault)
  | document (fault : DocumentFault)
  | serialization (fault : Json.Fault)
  deriving Repr, DecidableEq

namespace DidError

/-- The kind of an error. -/
def kind : DidError → ErrorKind
  | parse _ => .didParse
  | duplicateKey _ => .duplicateKey
  | integrity _ => .integrity
  | missingKeyMaterial _ => .missingKeyMaterial
  | policy _ => .invalidPolicy
  | document _ => .invalidDocument
  | serialization _ => .didSerialization

/-- The detail of an error. -/
def detail : DidError → String
  | parse e => e.message
  | duplicateKey hash => hash
  | integrity id => id
  | missingKeyMaterial id => id
  | policy fault => fault.message
  | document fault => fault.message
  | serialization fault => fault.message

end DidError

end DidVault
