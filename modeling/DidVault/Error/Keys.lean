import DidVault.Error.Kind
import DidVault.Rsa.Generate

/-!
# Failures of keys

What is said of a wrapped key that does not open is the same whether the
password is wrong or the key is damaged.
-/

namespace DidVault

/-- Why a wrapped key cannot even be tried. -/
inductive BlobFault where
  | tooShort (length least : Nat)
  | ragged
  deriving Repr, DecidableEq

/-- The words of a fault of a wrapped key. -/
def BlobFault.message : BlobFault → String
  | tooShort length least =>
    "wrapped key is " ++ toString length ++ " bytes, need at least " ++
      toString least
  | ragged => "ciphertext is not a whole number of blocks"

/-- Why an operation on keys fails. -/
inductive KeyError where
  | generation (fault : GenerationFault)
  /-- A text is not the PEM of a key. -/
  | invalidKey
  /-- The source of randomness ran dry. -/
  | noEntropy
  /-- The password is wrong or the wrapped key is damaged. -/
  | undecryptable
  | malformed (fault : BlobFault)
  deriving Repr, DecidableEq

namespace KeyError

/-- The kind of an error. -/
def kind : KeyError → ErrorKind
  | generation _ => .keyGeneration
  | invalidKey => .invalidKey
  | noEntropy => .encrypt
  | undecryptable => .decrypt
  | malformed _ => .malformedBlob

/-- The detail of an error. -/
def detail : KeyError → String
  | generation fault => fault.message
  | invalidKey => ""
  | noEntropy => "entropy source failed"
  | undecryptable => ""
  | malformed fault => fault.message

end KeyError

end DidVault
