import DidVault.Records.View

/-!
# Databases

A database has its committed records and any number of open transactions, each
under a name of its own.  All of them are used through views: `view?` shows the
database from outside or from inside one transaction, and `keep` takes over what
a view has become.  A transaction whose view is no longer inside one has been
closed.
-/

namespace DidVault

/-- Committed records with the transactions that are open on them. -/
structure Database where
  committed : Records
  transactions : List (String × Writes) := []

namespace Database

/-- The database without records. -/
def empty : Database := { committed := .empty }

/-- Closes a transaction, if it is open, and forgets its writes. -/
def close (db : Database) (name : String) : Database :=
  { db with transactions := db.transactions.filter (·.1 != name) }

/-- Opens a transaction in place of an open one of that name. -/
def begin (db : Database) (name : String) : Database :=
  { db with transactions := (name, .empty) :: (db.close name).transactions }

/-- The view from inside an open transaction or, without a name, from
outside. -/
def view? (db : Database) : Option String → Option View
  | none => some { committed := db.committed }
  | some name =>
    (db.transactions.lookup name).map fun writes =>
      { committed := db.committed, pending := some writes }

/-- Replaces the writes of a transaction. -/
def replace (name : String) (writes : Writes) (transaction : String × Writes) :
    String × Writes :=
  if transaction.1 == name then (name, writes) else transaction

/-- Takes over what a view has become. -/
def keep (db : Database) (name : Option String) (v : View) : Database :=
  let db := { db with committed := v.committed }
  match name, v.pending with
  | none, _ => db
  | some name, none => db.close name
  | some name, some writes =>
    { db with transactions := db.transactions.map (replace name writes) }

/-- Does an operation on the records through a view, if there is such a view. -/
def run? {α : Type} (db : Database) (name : Option String) (op : RecordsM α) :
    Option (Except StoreError α × Database) :=
  (db.view? name).map fun v =>
    let (outcome, v) := op.run.run v
    (outcome, db.keep name v)

/-- Closes a transaction and carries out its writes, if it is open. -/
def commit? (db : Database) (name : String) : Option Database :=
  (db.view? (some name)).map fun v => db.keep (some name) v.commit

/-- Closes a transaction and forgets its writes, if it is open. -/
def rollback? (db : Database) (name : String) : Option Database :=
  (db.view? (some name)).map fun v => db.keep (some name) v.rollback

end Database

end DidVault
