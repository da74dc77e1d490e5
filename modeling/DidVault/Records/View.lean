import DidVault.Error.Kind
import DidVault.Records.Table
import DidVault.Text.Utf8

/-!
# Looking at the records

All records are read and written through a `View`.  It shows the committed
records and, while a transaction is open, the writes of that transaction over
them.  Without a transaction every write is committed at once.

A view may refuse single calls, in the order in which they are made; this is how
a failing store shows itself.
-/

namespace DidVault

/-- Why a call on the records fails. -/
inductive StoreError where
  | unavailable
  /-- A record or its key, named `what`, is not text. -/
  | notText (what : String) (fault : Utf8.Fault)
  | serialization (detail : String)
  | transaction (detail : String)
  deriving Repr, DecidableEq

namespace StoreError

/-- The kind of an error. -/
def kind : StoreError → ErrorKind
  | unavailable => .storeUnavailable
  | notText .. => .storeSerialization
  | serialization _ => .storeSerialization
  | transaction _ => .storeTransaction

/-- The detail of an error. -/
def detail : StoreError → String
  | unavailable => ""
  | notText what fault => what ++ ": " ++ fault.message
  | serialization detail => detail
  | transaction detail => detail

/-- The words of an error. -/
def message (e : StoreError) : String :=
  e.kind.report e.detail

end StoreError

/-- The committed records. -/
abbrev Records := Table Bytes

/-- The writes of an open transaction; nothing stands for a removal. -/
abbrev Writes := Table (Option Bytes)

/-- What the records look like from inside or outside a transaction. -/
structure View where
  committed : Records
  /-- The writes of the open transaction, if there is one. -/
  pending : Option Writes := none
  /-- Whether, and why, a call is refused, by the number of calls before it. -/
  refusal : Nat → Option StoreError := fun _ => none
  /-- How many calls have been made. -/
  calls : Nat := 0

/-- Carries out one write on committed records. -/
def Records.write (records : Records) (key : Bytes) : Option Bytes → Records
  | some value => records.insert key value
  | none => records.erase key

/-- Carries out all writes of a transaction. -/
def Records.apply (records : Records) (writes : Writes) : Records :=
  writes.entries.foldl
    (fun records (key, value) => Records.write records key value) records

namespace View

/-- What a lookup finds. -/
def lookup (v : View) (key : Bytes) : Option Bytes :=
  match v.pending.bind (·.get? key) with
  | some value => value
  | none => v.committed.get? key

/-- Writes a value, or removes what is there. -/
def write (v : View) (key : Bytes) (value : Option Bytes) : View :=
  match v.pending with
  | some writes => { v with pending := some (writes.insert key value) }
  | none => { v with committed := Records.write v.committed key value }

/-- Opens a transaction. -/
def begin (v : View) : View := { v with pending := some .empty }

/-- Closes the transaction and carries out its writes. -/
def commit (v : View) : View :=
  { v with
    committed := (v.pending.map (Records.apply v.committed)).getD v.committed
    pending := none }

/-- Closes the transaction and forgets its writes. -/
def rollback (v : View) : View := { v with pending := none }

end View

/-- An operation on the records; what it did stays done when it fails. -/
abbrev RecordsM := ExceptT StoreError (StateM View)

namespace RecordsM

/-- Counts a call, and fails if it is refused. -/
def call : RecordsM Unit := do
  let v ← get
  set { v with calls := v.calls + 1 }
  match v.refusal v.calls with
  | some e => throw e
  | none => pure ()

/-- The record under a key. -/
def read? (key : String) : RecordsM (Option Bytes) := do
  call
  return (← get).lookup (Utf8.encode key)

/-- Whether there is a record under a key. -/
def has (key : String) : RecordsM Bool := do
  return (← read? key).isSome

/-- Writes a record. -/
def put (key : String) (value : Bytes) : RecordsM Unit := do
  call
  modify (·.write (Utf8.encode key) (some value))

/-- Removes a record, if it is there. -/
def delete (key : String) : RecordsM Unit := do
  call
  modify (·.write (Utf8.encode key) none)

/-- Fails unless bytes are text. -/
def textOf (what : String) (bytes : Bytes) : RecordsM String :=
  match Utf8.decode bytes with
  | .ok s => return s
  | .error fault => throw (.notText what fault)

/-- The record under a key, which has to be text. -/
def readText? (what key : String) : RecordsM (Option String) := do
  match ← read? key with
  | some bytes => return some (← textOf what bytes)
  | none => return none

end RecordsM

/-- The committed records whose keys begin with `start`, in the order of their
keys, all of which have to be text. -/
def Records.scan (records : Records) (start : String) :
    Except StoreError (List (String × Bytes)) :=
  (records.startingWith (Utf8.encode start)).mapM fun (key, value) =>
    match Utf8.decode key with
    | .ok key => .ok (key, value)
    | .error fault => .error (.notText "non UTF-8 record key" fault)

end DidVault
