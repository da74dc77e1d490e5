import DidVault.Records.View
import DidVault.Text.Hex

/-!
# Records on disk

The records are kept in a text of one line for each record: its key and its
value in hexadecimal digits, with a blank between them.
-/

namespace DidVault.Records

/-- The line of a record. -/
def line (record : Bytes × Bytes) : String :=
  Hex.encode record.1 ++ " " ++ Hex.encode record.2 ++ "\n"

/-- The text of all records. -/
def toText (records : Records) : String :=
  String.join (records.entries.map line)

/-- The record of a line, without its end. -/
def ofLine? (cs : List Char) : Option (Bytes × Bytes) :=
  match cs.span (· != ' ') with
  | (key, _ :: value) => do
    return (← Hex.decodeChars key, ← Hex.decodeChars value)
  | _ => none

/-- The records of a text, if all of its lines are lines of records. -/
def ofText? (text : String) : Option Records := do
  let rows ← ((text.toList.splitOn '\n').filter (!·.isEmpty)).mapM ofLine?
  return rows.foldl
    (fun records (key, value) => records.insert key value) .empty

end DidVault.Records
