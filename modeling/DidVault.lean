import DidVault.Address
import DidVault.Agent.Basic
import DidVault.Agent.CommandLine
import DidVault.Agent.Host
import DidVault.Agent.Run
import DidVault.Bytes
import DidVault.Cipher.Aes256
import DidVault.Cipher.Cbc
import DidVault.Cipher.Sbox
import DidVault.Desk
import DidVault.Did.BinderKey
import DidVault.Did.Document.Basic
import DidVault.Did.Document.Validation
import DidVault.Did.Identifier
import DidVault.Did.KeyId
import DidVault.Did.Kinds
import DidVault.Did.Method
import DidVault.Did.Names
import DidVault.Did.Policy.Basic
import DidVault.Did.Policy.Wire
import DidVault.Did.Recovery
import DidVault.Did.Url.Basic
import DidVault.Did.Url.Parser
import DidVault.Digest.Hmac
import DidVault.Digest.Ripemd160
import DidVault.Digest.Sha256
import DidVault.Digest.Sha3
import DidVault.Digest.Words
import DidVault.Error.Basic
import DidVault.Error.Did
import DidVault.Error.Keys
import DidVault.Error.Kind
import DidVault.Issuing
import DidVault.Json.Basic
import DidVault.Json.Canonical
import DidVault.Json.Datum
import DidVault.Json.Decimal
import DidVault.Json.Double
import DidVault.Json.Fault
import DidVault.Json.Printer
import DidVault.Json.Reader
import DidVault.Json.Record
import DidVault.Json.Token
import DidVault.Keys.Custody
import DidVault.Keys.Pool
import DidVault.Keys.Wrapping
import DidVault.Main
import DidVault.Proofs.Runs
import DidVault.Proofs.Text.Utf8
import DidVault.Records.Accounts
import DidVault.Records.Archive
import DidVault.Records.Database
import DidVault.Records.Table
import DidVault.Records.View
import DidVault.Registry
import DidVault.Rsa.Arithmetic
import DidVault.Rsa.Der
import DidVault.Rsa.Generate
import DidVault.Rsa.Key
import DidVault.Rsa.Pem
import DidVault.Text.Base58
import DidVault.Text.Base64
import DidVault.Text.Cut
import DidVault.Text.Hex
import DidVault.Text.Printable
import DidVault.Text.Quoted
import DidVault.Text.Utf8
import DidVault.Timestamp
import DidVault.Proofs.Records.Keys
import DidVault.Proofs.Records.Slots
import DidVault.Proofs.Records.Changes
import DidVault.Proofs.Records.Operations
import DidVault.Proofs.Desk
import DidVault.Proofs.Keys.Custody
import DidVault.Proofs.Issuing
import DidVault.Proofs.Registry.Changes
import DidVault.Proofs.Registry.Calls
import DidVault.Proofs.Registry.Footprint
import DidVault.Proofs.Registry.Atomic
import DidVault.Proofs.Json.Strings
import DidVault.Proofs.Json.Numbers
import DidVault.Proofs.Json.Tokens
import DidVault.Proofs.Json.Reading
import DidVault.Proofs.Json.Sorting
import DidVault.Proofs.Json.Records
import DidVault.Proofs.Did.Document.Reading
import DidVault.Proofs.Address
import DidVault.Proofs.Text.Cut
import DidVault.Proofs.Did.KeyId
import DidVault.Proofs.Did.Policy.Compose
import DidVault.Proofs.Did.Identifier
import DidVault.Proofs.Registry.Issued
import DidVault.Proofs.Did.Founded
import DidVault.Proofs.Supply
import DidVault.Proofs.Registry.Holdings
import DidVault.Proofs.Registry.Keeping
import DidVault.Proofs.Registry.History
import DidVault.Proofs.Did.Url.Grammar
import DidVault.Proofs.Did.Url.Parts
import DidVault.Proofs.Did.Url.Reading
import DidVault.Proofs.Did.KeyUrl
import DidVault.Proofs.Json.Equality
import DidVault.Proofs.Json.NormalForm
import DidVault.Proofs.Registry.Index
import DidVault.Proofs.Registry.Listing
import DidVault.Proofs.Registry.Aside
import DidVault.Proofs.Registry.OneToOne
import DidVault.Proofs.Json.Pretty
import DidVault.Proofs.Json.Nesting
import DidVault.Proofs.Did.Document.RoundTrip
import DidVault.Proofs.Records.Scan
import DidVault.Proofs.Records.Isolation
import DidVault.Proofs.Registry.Steps
import DidVault.Proofs.Registry.Rooted
import DidVault.Proofs.Registry.Consistency
import DidVault.Proofs.Registry.Lasting
import DidVault.Proofs.Registry.Grouping
import DidVault.Proofs.Json.Canonical
import DidVault.Proofs.Did.Policy.Wire
import DidVault.Proofs.Did.Policy.Meaning
import DidVault.Proofs.Did.Url.Normal
import DidVault.Proofs.Did.Sound
import DidVault.Proofs.Did.Edits
import DidVault.Proofs.Cipher.Aes256
import DidVault.Proofs.Cipher.Cbc
import DidVault.Proofs.Keys.Wrapping
import DidVault.Proofs.Registry.Refusals
import DidVault.Proofs.Did.Document.Validity
import DidVault.Proofs.Did.Standing
import DidVault.Proofs.Did.Reissued
import DidVault.Proofs.Registry.Standing
import DidVault.Proofs.Registry.Reset
import DidVault.Proofs.Registry.Stops
import DidVault.Proofs.Registry.Partial
import DidVault.Proofs.Did.Removal
import DidVault.Proofs.Did.Installed
import DidVault.Proofs.Did.Rebuilt
import DidVault.Proofs.Did.Document.Verdict
import DidVault.Proofs.Did.HandedIn
import DidVault.Proofs.Keys.Passwords
import DidVault.Proofs.Text.Base58
import DidVault.Proofs.Address.Contents
import DidVault.Proofs.Did.Policy.Grammar
import DidVault.Proofs.Text.Slice
import DidVault.Proofs.Did.Url.Cursor
import DidVault.Proofs.Did.Url.InPlace
import DidVault.Proofs.Did.Url.Refusals
import DidVault.Proofs.Keys.Pool
import DidVault.Proofs.Keys.Uses
import DidVault.Proofs.Keys.SingleUse
