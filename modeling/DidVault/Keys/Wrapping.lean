import DidVault.Cipher.Cbc
import DidVault.Digest.Hmac
import DidVault.Error.Keys

/-!
# Wrapped keys

A private key is stored under a password.  The blob is a version of four zero
bytes, a first block that is drawn anew for every wrapping, and the encrypted
key; nothing in it says whether a password is right, so that a decrypted key has
to be read before it is believed.
-/

namespace DidVault.Wrapping

/-- What the salt of every derived key is the digest of. -/
def saltSeed : String := "aospace-agent/password-key-wrap"

/-- How often a password is stretched. -/
def iterations : Nat := 4096

/-- The bytes in front of the first block. -/
def version : Bytes := [0, 0, 0, 0]

/-- How many bytes stand in front of the encrypted key. -/
def headerLength : Nat := version.length + Cbc.blockLength

/-- The key that a password gives. -/
def deriveKey (password : String) : Bytes :=
  Pbkdf2.derive (Utf8.encode password)
    (Sha256.hash (Utf8.encode saltSeed)) iterations

/-- The round keys that a password gives. -/
def schedule (password : String) : List Aes256.Block :=
  Aes256.keySchedule (deriveKey password)

/-- Wraps a byte string under a password, from a first block of sixteen
bytes. -/
def wrapWith (iv : Bytes) (plaintext : Bytes) (password : String) : Bytes :=
  version ++ iv ++ Cbc.encrypt (schedule password)
    (Aes256.Block.ofBytes iv) plaintext

/-- Decrypts a blob, without a look at what comes out. -/
def decrypt (blob : Bytes) (password : String) : Except KeyError Bytes :=
  let least := headerLength + Cbc.blockLength
  let ciphertext := blob.drop headerLength
  if blob.length < least then .error (.malformed (.tooShort blob.length least))
  else if ciphertext.length % Cbc.blockLength ≠
    0 then .error (.malformed .ragged)
  else
    let iv := Aes256.Block.ofBytes
      ((blob.drop version.length).take Cbc.blockLength)
    match Cbc.decrypt (schedule password) iv ciphertext with
    | some plaintext => .ok plaintext
    | none => .error .undecryptable

/-- The pair of a private key in PEM that is given as bytes. -/
def readPair (plaintext : Bytes) : Except KeyError KeyPair :=
  match Utf8.decode plaintext with
  | .error _ => .error .undecryptable
  | .ok pem =>
    match KeyPair.ofPrivatePem pem with
    | some pair => .ok pair
    | none => .error .undecryptable

/-- Opens a blob that holds a private key: the text in it and the pair that it
gives. -/
def openBlob (blob : Bytes) (password : String) :
    Except KeyError (Bytes × KeyPair) := do
  let plaintext ← decrypt blob password
  let pair ← readPair plaintext
  return (plaintext, pair)

/-- The text of the private key in a blob. -/
def unwrap (blob : Bytes) (password : String) : Except KeyError Bytes :=
  Prod.fst <$> openBlob blob password

/-- The pair of the private key in a blob. -/
def unwrapKey (blob : Bytes) (password : String) : Except KeyError KeyPair :=
  Prod.snd <$> openBlob blob password

end DidVault.Wrapping
