import DidVault.Error.Basic
import DidVault.Keys.Pool

/-!
# The desk

Operations on accounts work at a `Desk`: a view of the records, the pool of
keys, the supply of new ones and a supply of random bytes.  An operation that
fails leaves on the desk whatever it had done before it failed; taking it back
is the business of transactions.
-/

namespace DidVault

/-- What an operation on accounts works with. -/
structure Desk where
  view : View
  pool : KeyPool := {}
  source : KeySource
  /-- The random bytes that have not been drawn. -/
  entropy : Bytes := []

/-- An operation on accounts. -/
abbrev DeskM := ExceptT Error (StateM Desk)

namespace DeskM

/-- Does an operation on the records. -/
def records {α : Type} (op : RecordsM α) : DeskM α := do
  let desk ← get
  let (outcome, view) := op.run.run desk.view
  set { desk with view }
  match outcome with
  | .ok a => return a
  | .error e => throw (.store e)

/-- Fails with an error of keys, if there is one. -/
def ofKeys {α : Type} : Except KeyError α → DeskM α
  | .ok a => return a
  | .error e => throw (.key e)

/-- Fails with an error of documents, if there is one. -/
def ofDid {α : Type} : Except DidError α → DeskM α
  | .ok a => return a
  | .error e => throw (.did e)

/-- Draws random bytes, or fails with `shortage`. -/
def draw (count : Nat) (shortage : Error) : DeskM Bytes := do
  let desk ← get
  if desk.entropy.length < count then throw shortage
  else
    set { desk with entropy := desk.entropy.drop count }
    return desk.entropy.take count

/-- Makes a new pair of keys. -/
def makePair : DeskM KeyPair := do
  let desk ← get
  set { desk with
    source := { desk.source with asked := desk.source.asked + 1 } }
  match desk.source.outcome desk.source.asked with
  | .ok pair => return pair
  | .error fault => throw (.key (.generation fault))

/-- Takes the pair that waits for a purpose. -/
def take (purpose : KeyPurpose) : DeskM (Option KeyPair) := do
  let desk ← get
  set { desk with pool := desk.pool.set purpose none }
  return desk.pool.get purpose

/-- Takes the pair that waits for a purpose, or makes a new one. -/
def takeOrMake (purpose : KeyPurpose) : DeskM KeyPair := do
  match ← take purpose with
  | some pair => return pair
  | none => makePair

/-- Makes a pair for a purpose for which none waits. -/
def fill (purpose : KeyPurpose) : DeskM Unit := do
  if (← get).pool.isReady purpose then return
  let pair ← makePair
  modify fun desk => { desk with pool := desk.pool.set purpose (some pair) }

/-- Fills the pool. -/
def pregenerate : DeskM Unit := do
  fill .space
  fill .password

/-- Does an operation as a whole or not at all.  Inside an open transaction it
becomes part of that one; otherwise it has a transaction of its own, which is
committed if the operation succeeds. -/
def transactionally {α : Type} (op : DeskM α) : DeskM α := do
  if (← get).view.pending.isSome then op
  else
    modify fun desk => { desk with view := desk.view.begin }
    match ← (ExceptT.mk (Except.ok <$> op.run) : DeskM (Except Error α)) with
    | .ok a =>
      modify fun desk => { desk with view := desk.view.commit }
      return a
    | .error e =>
      modify fun desk => { desk with view := desk.view.rollback }
      throw e

end DeskM

end DidVault
