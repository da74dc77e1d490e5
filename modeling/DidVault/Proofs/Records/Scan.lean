import DidVault.Proofs.Records.Changes
import Mathlib.Data.List.Basic
import Mathlib.Data.Set.List

/-!
# Scans

A scan finds the committed records whose keys have a beginning, each of them
once, in the order of the keys (`Records.scan_of_texts`).  It fails on a key
that is not text (`Records.scan_eq_ok_iff`), and no such key is ever written.
-/

namespace DidVault

/-- The entries of a table are the values of its keys. -/
theorem Table.mem_entries_iff {β : Type} {t : Table β} {key : Bytes}
    {value : β} :
    (key, value) ∈ t.entries ↔ t.get? key = some value := by
  obtain ⟨entries, hsorted⟩ := t
  rw [get?]
  induction entries with
  | nil => exact iff_of_false List.not_mem_nil (Option.some_ne_none value).symm
  | cons e rest ih =>
      obtain ⟨hfirst, hrest⟩ := List.pairwise_cons.mp hsorted
      rw [List.mem_cons, find?]
      by_cases hkey : e.1 = key
      · have hother : (key, value) ∉ rest := by
          intro hmem
          have hbefore := hfirst _ hmem
          rw [hkey, Bytes.before_irrefl] at hbefore
          cases hbefore
        rw [if_pos hkey, Option.some_inj, or_iff_left hother, Prod.ext_iff]
        simp [hkey, eq_comm]
      · rw [if_neg hkey, ← ih hrest]
        refine or_iff_right fun h => hkey ?_
        rw [← h]

/-- Items of which each is read as what it was written from are read as the list
of all that. -/
theorem mapM_eq_ok_iff {α β ε : Type} {f : α → Except ε β} {g : β → α}
    {items : List α} {found : List β}
    (hread : ∀ a ∈ items, ∀ b, f a = .ok b ↔ a = g b) :
    items.mapM f = .ok found ↔ items = found.map g := by
  induction items generalizing found with
  | nil => cases found <;> simp [pure, Except.pure]
  | cons a items ih =>
      have hfirst := hread a List.mem_cons_self
      have hrest : ∀ found, items.mapM f = .ok found ↔ items = found.map g := by
        intro found
        exact ih fun b hb => hread b (List.mem_cons_of_mem a hb)
      rw [List.mapM_cons]
      constructor
      · intro h
        obtain ⟨b, hb, h⟩ := DidUrl.bind_eq_ok.mp h
        obtain ⟨others, hothers, h⟩ := DidUrl.bind_eq_ok.mp h
        cases h
        rw [List.map_cons, ← (hfirst b).mp hb, ← (hrest others).mp hothers]
      · intro h
        obtain ⟨b, others, rfl, hb, hothers⟩ := List.map_eq_cons_iff.mp h.symm
        rw [(hfirst b).mpr hb.symm, (hrest others).mpr hothers.symm]
        rfl

/-- All keys that hold something are texts. -/
def Sight.Texts (look : Sight) : Prop :=
  ∀ key value, look key = some value → ∃ text, key = Utf8.encode text

/-- The rows are what is found under the keys that have a beginning, in the
order of the keys. -/
structure Scanned (rows : List (String × Bytes)) (start : String)
    (look : Sight) : Prop where
  complete : ∀ key value, (key, value) ∈ rows ↔
    Utf8.encode start <+: Utf8.encode key ∧ look (Utf8.encode key) = some value
  ascending : rows.Pairwise fun r s =>
    Bytes.before (Utf8.encode r.1) (Utf8.encode s.1) = true

namespace Records

/-- A record of a row. -/
def keyed (row : String × Bytes) : Bytes × Bytes :=
  (Utf8.encode row.1, row.2)

/-- A row's key and value determine it. -/
theorem keyed_injective : Function.Injective keyed := by
  intro row other h
  obtain ⟨hkey, hvalue⟩ := Prod.mk.inj h
  exact Prod.ext (Utf8.encode_injective hkey) hvalue

variable {records : Records} {start : String} {rows : List (String × Bytes)}

/-- A scan reads the rows whose records it finds, and fails if they are of no
rows. -/
theorem scan_eq_ok_iff :
    records.scan start = .ok rows ↔
      records.startingWith (Utf8.encode start) = rows.map keyed := by
  apply mapM_eq_ok_iff
  intro record _ row
  obtain ⟨key, value⟩ := record
  obtain ⟨text, other⟩ := row
  rw [keyed, Prod.mk.injEq, ← Utf8.decode_eq_ok_iff]
  dsimp only
  cases Utf8.decode key with
  | error fault => simp
  | ok read => simp

/-- The rows under a beginning are those that a scan has to find. -/
theorem scanned_of_rows
    (hrows : records.startingWith (Utf8.encode start) = rows.map keyed) :
    Scanned rows start records.get? where
  complete key value := by
    rw [← List.mem_map_of_injective keyed_injective, ← hrows,
      Table.startingWith, List.mem_filter, keyed, Table.mem_entries_iff,
      List.isPrefixOf_iff_prefix, and_comm]
  ascending := by
    have hsorted := records.sorted.filter fun e =>
      (Utf8.encode start).isPrefixOf e.1
    have hstart : (rows.map keyed).Pairwise fun a b =>
      Bytes.before a.1 b.1 = true := by
        rw [← hrows]
        exact hsorted
    exact List.pairwise_map.mp hstart

/-- Where all keys are texts, a scan finds all records under the keys that have
the beginning. -/
theorem scan_of_texts (htexts : Sight.Texts records.get?) (start : String) :
    ∃ rows, records.scan start = .ok rows ∧
      Scanned rows start records.get? := by
  have hrow : records.startingWith (Utf8.encode start) ∈
      Set.range (List.map keyed) := by
    rw [Set.range_list_map]
    rintro ⟨key, value⟩ hmem
    have hfound := Table.mem_entries_iff.mp (List.mem_filter.mp hmem).1
    obtain ⟨text, rfl⟩ := htexts key value hfound
    exact ⟨(text, value), rfl⟩
  obtain ⟨rows, hrows⟩ := hrow
  exact ⟨rows, scan_eq_ok_iff.mpr hrows.symm, scanned_of_rows hrows.symm⟩

end Records

end DidVault
