import DidVault.Proofs.Records.Scan
import DidVault.Proofs.Registry.Index

/-!
# The list of accounts

The records of the forward direction of the index have a beginning of their own,
and the rest of their keys is the account.  Whatever else is stored, the list is
what a scan of that beginning finds (`Records.accounts_eq_ok_iff`).  Where the
index is one to one it has each indexed account once, in the order of the
accounts (`Records.accounts_of_paired`).
-/

namespace DidVault

/-- A common beginning does not count for the order of two keys. -/
theorem Bytes.before_append (front a b : Bytes) :
    before (front ++ a) (front ++ b) = before a b := by
  induction front with
  | nil => rfl
  | cons x xs ih => simp [before, ih]

namespace Slot

/-- The key of the DID of an account is the account behind a fixed beginning. -/
theorem key_didOf (account : String) :
    (didOf account).key = Utf8.encode RecordKey.didsStart ++
      Utf8.encode account := by
  rw [← Utf8.encode_append]
  exact congrArg Utf8.encode (text_eq_append (didOf account))

/-- No other slot has a key with this beginning. -/
theorem exists_didOf_of_prefix {s : Slot}
    (hbegins : (Utf8.encode RecordKey.didsStart).isPrefixOf s.key = true) :
    ∃ account, s = didOf account := by
  rw [List.isPrefixOf_iff_prefix, key, Utf8.encode_prefix_iff, text_eq_append]
    at hbegins
  have hkind : s.kind = .didOf :=
    (RecordKind.start_prefix_iff (k := .didOf)).mp hbegins |>.symm
  exact ⟨s.owner, eq_of_kind_of_owner hkind rfl⟩

end Slot

/-- The rows are the indexed accounts with their DIDs, in the order of the
accounts, each of them once, and no two with the same DID. -/
structure Lists (rows : List (String × String)) (records : Records) : Prop where
  complete : ∀ account did, (account, did) ∈ rows ↔
    Sight.Maps records.get? account did
  indexed : ∀ account value,
    records.get? (Slot.didOf account).key = some value →
    ∃ did, (account, did) ∈ rows
  ascending : rows.Pairwise fun r s =>
    Bytes.before (Utf8.encode r.1) (Utf8.encode s.1) = true
  different : (rows.map Prod.snd).Nodup

namespace Records

/-- The record of an account and its DID. -/
def ofRow (row : String × String) : Bytes × Bytes :=
  ((Slot.didOf row.1).key, Utf8.encode row.2)

variable {records : Records} {rows : List (String × String)}

/-- The rows of the forward index are the pairs that map to one another. -/
theorem mem_startingWith_iff (row : String × String) :
    ofRow row ∈ records.startingWith (Utf8.encode RecordKey.didsStart) ↔
      Sight.Maps records.get? row.1 row.2 := by
  rw [Table.startingWith, List.mem_filter, ofRow, Table.mem_entries_iff,
    Sight.Maps]
  refine and_iff_left ?_
  rw [Slot.key_didOf, List.isPrefixOf_iff_prefix]
  exact List.prefix_append ..

/-- A row determines its record, and the record the row. -/
theorem ofRow_injective : Function.Injective ofRow := by
  intro row other h
  obtain ⟨hkey, hvalue⟩ := Prod.mk.inj h
  exact Prod.ext (Slot.didOf.inj (Slot.key_inj.mp hkey))
    (Utf8.encode_injective hvalue)

/-- What is found by the beginning of the keys are records of accounts and their
DIDs. -/
theorem exists_rows (hslots : Sight.Slotted records.get?)
    (hpaired : Sight.Paired records.get?) :
    ∃ rows : List (String × String),
      records.startingWith (Utf8.encode RecordKey.didsStart) =
        rows.map ofRow := by
  have hrow : records.startingWith (Utf8.encode RecordKey.didsStart) ∈
      Set.range (List.map ofRow) := by
    rw [Set.range_list_map]
    rintro ⟨key, value⟩ hmem
    obtain ⟨hentry, hbegins⟩ := List.mem_filter.mp hmem
    have hfound := Table.mem_entries_iff.mp hentry
    obtain ⟨s, rfl⟩ := hslots key value hfound
    obtain ⟨account, rfl⟩ := Slot.exists_didOf_of_prefix hbegins
    obtain ⟨did, rfl⟩ := hpaired.text (.didOf account) trivial value hfound
    exact ⟨(account, did), rfl⟩
  obtain ⟨rows, hrows⟩ := hrow
  exact ⟨rows, hrows.symm⟩

/-- An account and its DID as a scan finds them. -/
def textOfRow (row : String × String) : String × Bytes :=
  ((Slot.didOf row.1).text, Utf8.encode row.2)

/-- What is read of a record that a scan has found. -/
def readRow (record : String × Bytes) : Except StoreError (String × String) :=
  let account := String.ofList (record.1.toList.drop RecordKey.didsStart.length)
  match Utf8.decode record.2 with
  | .ok did => .ok (account, did)
  | .error fault => .error (.notText ("indexed DID of aoId " ++ account) fault)

/-- Listing the accounts means scanning the forward index and reading its
rows. -/
theorem accounts_eq (records : Records) :
    records.accounts = records.scan RecordKey.didsStart >>= List.mapM readRow :=
  rfl

/-- A record of the forward index is read as the row that it writes. -/
theorem readRow_eq_ok_iff {record : String × Bytes} {row : String × String}
    (hbegins : RecordKey.didsStart.toList <+: record.1.toList) :
    readRow record = .ok row ↔ record = textOfRow row := by
  obtain ⟨key, value⟩ := record
  obtain ⟨account, did⟩ := row
  obtain ⟨owner, rfl⟩ := RecordKind.exists_didOf_of_begins hbegins
  have hkey : RecordKey.didOf owner = (Slot.didOf account).text ↔
      owner = account := by
    constructor
    · intro h
      exact Slot.didOf.inj (Slot.text_injective h)
    · intro h
      rw [h]
      rfl
  rw [readRow, (RecordKind.account_behind_start owner).1, textOfRow,
    Prod.mk.injEq, hkey, ← Utf8.decode_eq_ok_iff]
  dsimp only
  cases Utf8.decode value with
  | error fault => simp
  | ok read => simp

/-- The accounts are listed exactly if all records with the beginning are
records of accounts and their DIDs, and these are what is listed. -/
theorem accounts_eq_ok_iff :
    records.accounts = .ok rows ↔
      records.startingWith (Utf8.encode RecordKey.didsStart) =
        rows.map ofRow := by
  have hbegins : ∀ texts, records.scan RecordKey.didsStart = .ok texts →
      ∀ record ∈ texts, RecordKey.didsStart.toList <+: record.1.toList := by
    intro texts hscan record hmem
    have hrecord :
        keyed record ∈
          records.startingWith (Utf8.encode RecordKey.didsStart) := by
      rw [scan_eq_ok_iff.mp hscan]
      exact List.mem_map_of_mem hmem
    have hstart := (List.mem_filter.mp hrecord).2
    rw [List.isPrefixOf_iff_prefix, keyed, Utf8.encode_prefix_iff] at hstart
    exact hstart
  rw [accounts_eq, DidUrl.bind_eq_ok]
  constructor
  · intro h
    obtain ⟨texts, hscan, hread⟩ := h
    have htexts : texts = rows.map textOfRow := by
      refine (mapM_eq_ok_iff (g := textOfRow) ?_).mp hread
      intro record hmem row
      exact readRow_eq_ok_iff (hbegins texts hscan record hmem)
    rw [scan_eq_ok_iff.mp hscan, htexts, List.map_map]
    rfl
  · intro h
    have hscan : records.scan RecordKey.didsStart =
        .ok (rows.map textOfRow) := by
      rw [scan_eq_ok_iff, h, List.map_map]
      rfl
    refine ⟨_, hscan, (mapM_eq_ok_iff (g := textOfRow) ?_).mpr rfl⟩
    intro record hmem row
    exact readRow_eq_ok_iff (hbegins _ hscan record hmem)

/-- The rows of the forward index list the accounts. -/
theorem lists_of_rows (hpaired : Sight.Paired records.get?)
    (hrows : records.startingWith (Utf8.encode RecordKey.didsStart) =
      rows.map ofRow) : Lists rows records := by
  have hcomplete : ∀ account did, (account, did) ∈ rows ↔
      Sight.Maps records.get? account did := by
    intro account did
    rw [← List.mem_map_of_injective ofRow_injective, ← hrows]
    exact mem_startingWith_iff (account, did)
  have hascending : rows.Pairwise fun r s =>
      Bytes.before (Utf8.encode r.1) (Utf8.encode s.1) = true := by
    have hsorted := records.sorted.filter
      fun e => (Utf8.encode RecordKey.didsStart).isPrefixOf e.1
    have hstart : (rows.map ofRow).Pairwise fun a b =>
      Bytes.before a.1 b.1 = true := by
        rw [← hrows]
        exact hsorted
    refine (List.pairwise_map.mp hstart).imp fun hbefore => ?_
    rwa [ofRow, ofRow, Slot.key_didOf, Slot.key_didOf, Bytes.before_append]
      at hbefore
  refine ⟨hcomplete, fun account value hvalue => ?_, hascending, ?_⟩
  · obtain ⟨did, rfl⟩ := hpaired.text (.didOf account) trivial value hvalue
    exact ⟨did, (hcomplete account did).mpr hvalue⟩
  -- two rows with one DID would be of one account, which is not before itself
  · refine List.pairwise_map.mpr (hascending.imp_of_mem ?_)
    rintro ⟨account, did⟩ ⟨other, e⟩ hmem hmem' hbefore rfl
    have hsame :=
      hpaired.account_eq ((hcomplete account _).mp hmem)
        ((hcomplete other _).mp hmem')
    rw [hsame, Bytes.before_irrefl] at hbefore
    cases hbefore

/-- An index whose directions are inverse to each other is listed. -/
theorem accounts_of_paired (hslots : Sight.Slotted records.get?)
    (hpaired : Sight.Paired records.get?) :
    ∃ rows, records.accounts = .ok rows ∧ Lists rows records := by
  obtain ⟨rows, hrows⟩ := exists_rows hslots hpaired
  exact ⟨rows, accounts_eq_ok_iff.mpr hrows, lists_of_rows hpaired hrows⟩

end Records

end DidVault
