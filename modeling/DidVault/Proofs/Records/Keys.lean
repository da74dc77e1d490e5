import DidVault.Proofs.Text.Slice
import DidVault.Records.Accounts
import Mathlib.Data.List.TakeWhile

/-!
# Keys of records

The key of a record is the beginning of its kind with the account or the DID
behind it.  Accounts and DIDs are free to hold separators and whole beginnings
themselves, so the keys are kept apart by one thing only: no beginning begins
another one (`RecordKind.eq_of_start_begins`).  A key therefore has the
beginning of its own kind and no other (`RecordKind.start_prefix_iff`), and what
stands behind it is read off unchanged (`RecordKind.start_append_inj`).
-/

namespace DidVault

/-- The kinds of records. -/
inductive RecordKind where
  | spaceKey
  | passwordKey
  | document
  | didOf
  | accountOf
  deriving Repr, DecidableEq

/-- What a normal DID consists of. -/
def keptInRecords (c : Char) : Bool := c != '?' && c != '#'

/-- A record's DID is cut at `?` and `#`. -/
theorem keptInRecords_iff {c : Char} :
    keptInRecords c = true ↔ c ∉ ['?', '#'] := by
  simp [keptInRecords]

/-- The normalized DID is what stands before the first of the two. -/
theorem toList_normalizeDid (did : String) :
    (normalizeDid did).toList = did.toList.takeWhile keptInRecords :=
  String.toList_ofList

/-- The beginnings of a normal DID are those of the DID that hold no question
mark and no hash. -/
theorem prefix_normalizeDid_iff {start : List Char} {did : String} :
    start <+: (normalizeDid did).toList ↔ start <+: did.toList ∧ '?' ∉ start ∧
      '#' ∉ start := by
  rw [toList_normalizeDid]
  constructor
  · intro h
    have hkept : ∀ c ∈ start, c ∉ ['?', '#'] := by
      intro c hc
      exact keptInRecords_iff.mp (List.mem_takeWhile_imp (h.subset hc))
    refine ⟨h.trans (List.takeWhile_prefix _), ?_, ?_⟩
    · intro hmark
      exact hkept '?' hmark (by decide)
    · intro hmark
      exact hkept '#' hmark (by decide)
  · intro h
    obtain ⟨⟨rest, hrest⟩, hquestion, hhash⟩ := h
    have hkept : ∀ c ∈ start, keptInRecords c = true := by
      intro c hc
      rw [keptInRecords, Bool.and_eq_true, bne_iff_ne, bne_iff_ne]
      exact ⟨ne_of_mem_of_not_mem hc hquestion, ne_of_mem_of_not_mem hc hhash⟩
    rw [← hrest, List.takeWhile_append_of_pos hkept]
    exact List.prefix_append ..

/-- A DID begins with its normal form. -/
theorem normalizeDid_begins (did : String) :
    (normalizeDid did).toList <+: did.toList :=
  (prefix_normalizeDid_iff.mp List.prefix_rfl).1

/-- What is left of a DID has no query or fragment any more. -/
@[simp] theorem normalizeDid_normalizeDid (did : String) :
    normalizeDid (normalizeDid did) = normalizeDid did := by
  simp [normalizeDid, List.takeWhile_idem]

/-- The owner of a record stands at the end of its key. -/
theorem RecordKey.of_eq_append (group kind owner : String) :
    of group kind owner = of group kind "" ++ owner := by
  simp [of]

namespace RecordKind

/-- The key of the record of an account or of a DID. -/
def key : RecordKind → String → String
  | spaceKey => RecordKey.spaceKey
  | passwordKey => RecordKey.passwordKey
  | document => RecordKey.document
  | didOf => RecordKey.didOf
  | accountOf => RecordKey.accountOf

/-- What a key keeps of the account or of the DID: the account as it is, and the
DID without its query and fragment. -/
def owner : RecordKind → String → String
  | spaceKey, account => account
  | passwordKey, account => account
  | document, did => normalizeDid did
  | didOf, account => account
  | accountOf, did => normalizeDid did

/-- What all keys of a kind begin with. -/
def start (k : RecordKind) : String := k.key ""

variable {k l : RecordKind} {x y : String}

/-- A record's key is the beginning of its kind and the owner. -/
theorem key_eq_append (k : RecordKind) (x : String) :
    k.key x = k.start ++ k.owner x := by
  cases k <;> apply RecordKey.of_eq_append

/-- No beginning of a kind begins the one of another kind. -/
theorem eq_of_start_begins (h : k.start.toList <+: l.start.toList) : k = l := by
  revert h
  cases k <;> cases l <;> decide +kernel

/-- A text with the beginning of one kind does not have the beginning of another
one, whatever follows it. -/
theorem start_prefix_iff :
    k.start.toList <+: (l.start ++ x).toList ↔ k = l := by
  have hown : l.start.toList <+: (l.start ++ x).toList := by
    rw [String.toList_append]
    exact List.prefix_append ..
  constructor
  · intro h
    -- of two beginnings of one text the shorter one begins the longer one
    rcases List.prefix_or_prefix_of_prefix h hown with hkl | hlk
    · exact eq_of_start_begins hkl
    · exact (eq_of_start_begins hlk).symm
  · intro h
    rw [h]
    exact hown

/-- The kind and what stands behind its beginning are read off a text. -/
theorem start_append_inj : k.start ++ x = l.start ++ y ↔ k = l ∧ x = y := by
  constructor
  · intro h
    have hkind : k = l := by
      apply start_prefix_iff.mp
      rw [← h]
      exact start_prefix_iff.mpr rfl
    subst hkind
    have hchars := congrArg String.toList h
    rw [String.toList_append, String.toList_append] at hchars
    exact ⟨rfl, String.toList_inj.mp (List.append_cancel_left hchars)⟩
  · intro h
    rw [h.1, h.2]

/-- Two keys are equal exactly if they are of one kind and keep the same
owner. -/
theorem key_inj : k.key x = l.key y ↔ k = l ∧ k.owner x = l.owner y := by
  rw [key_eq_append, key_eq_append, start_append_inj]

/-- Behind the beginning of the keys of DIDs the account stands as it is,
whether characters or bytes are counted. -/
theorem account_behind_start (account : String) :
    String.ofList
      ((RecordKey.didOf account).toList.drop RecordKey.didsStart.length) =
        account ∧
      Utf8.slice? (Utf8.encode (RecordKey.didOf account))
        (Utf8.encode RecordKey.didsStart).length
          (Utf8.encode (RecordKey.didOf account)).length = some account := by
  have hkey : (RecordKey.didOf account).toList = RecordKey.didsStart.toList ++
      account.toList := by
    rw [← String.toList_append]
    exact congrArg String.toList (key_eq_append .didOf account)
  constructor
  · rw [hkey, ← String.length_toList, List.drop_left, String.ofList_toList]
  · rw [Json.encode_eq_bytesOf, Json.encode_eq_bytesOf, hkey,
      Utf8.slice?_behind, String.ofList_toList]

/-- A text with this beginning is the key of the DID of an account. -/
theorem exists_didOf_of_begins {text : String}
    (hbegins : RecordKey.didsStart.toList <+: text.toList) :
    ∃ account, text = RecordKey.didOf account := by
  obtain ⟨cs, hcs⟩ := hbegins
  refine ⟨String.ofList cs, String.toList_inj.mp ?_⟩
  rw [← hcs, RecordKey.didOf, RecordKey.of_eq_append, String.toList_append,
    String.toList_ofList]
  rfl

/-- Keys of records do not collide, whatever accounts and DIDs are made of.  Two
keys are equal exactly if they are of one kind and of one account, or of DIDs
with one normal form.  The keys of the DIDs of accounts are found by their
beginning, in characters as in bytes, and the account is what stands behind it.
The normal form of a DID is the longest of its beginnings without a question
mark or hash. -/
theorem keys_apart (x y : String) :
    (∀ k l : RecordKind, k.key x = l.key y ↔ k = l ∧ k.owner x = l.owner y) ∧
      (∀ k : RecordKind, RecordKey.didsStart.toList <+: (k.key x).toList ↔
        k = .didOf) ∧
      (∀ k : RecordKind,
        Utf8.encode RecordKey.didsStart <+: Utf8.encode (k.key x) ↔
          k = .didOf) ∧
      String.ofList ((RecordKey.didOf x).toList.drop RecordKey.didsStart.length)
        = x ∧
      Utf8.slice? (Utf8.encode (RecordKey.didOf x))
        (Utf8.encode RecordKey.didsStart).length
        (Utf8.encode (RecordKey.didOf x)).length = some x ∧
      normalizeDid (normalizeDid x) = normalizeDid x ∧
      (normalizeDid x).toList <+: x.toList ∧
      ∀ start, start <+: (normalizeDid x).toList ↔
        start <+: x.toList ∧ '?' ∉ start ∧ '#' ∉ start := by
  have hstart : ∀ k : RecordKind,
      RecordKey.didsStart.toList <+: (k.key x).toList ↔ k = .didOf := by
    intro k
    rw [key_eq_append, eq_comm]
    exact start_prefix_iff (k := .didOf)
  obtain ⟨hchars, hbytes⟩ := account_behind_start x
  refine ⟨?_, hstart, ?_, hchars, hbytes, normalizeDid_normalizeDid x,
    normalizeDid_begins x, ?_⟩
  · intro k l
    exact key_inj
  · intro k
    rw [Utf8.encode_prefix_iff]
    exact hstart k
  · intro start
    exact prefix_normalizeDid_iff

/-- An account may look like a key itself. -/
example :
    ¬ RecordKey.didsStart.toList <+:
      (RecordKey.spaceKey "index--aoid_to_did--a").toList := by
  decide +kernel

end RecordKind

end DidVault
