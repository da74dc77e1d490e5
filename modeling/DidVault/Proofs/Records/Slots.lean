import DidVault.Proofs.Records.Keys

/-!
# Slots

A slot is the place of one record of an account: its kind, and the account or
the DID that it belongs to.  The keys of records are the texts of slots, and no
two slots share a key (`Slot.key_inj`), whatever characters the accounts and
DIDs are made of: a key tells its kind and what stands behind the beginning of
the kind (`RecordKind.start_append_inj`).
-/

namespace DidVault

/-- The place of a record; a DID stands here without its query and fragment. -/
inductive Slot where
  | spaceKey (account : String)
  | passwordKey (account : String)
  | document (did : String)
  | didOf (account : String)
  | accountOf (did : String)
  deriving Repr, DecidableEq

namespace Slot

/-- The key of a slot as a text. -/
def text : Slot → String
  | spaceKey account => RecordKey.of "key" "space_rsa_pri" account
  | passwordKey account => RecordKey.of "key" "password_rsa_pri" account
  | document did => RecordKey.of "doc" "did_doc" did
  | didOf account => RecordKey.of "index" "aoid_to_did" account
  | accountOf did => RecordKey.of "index" "did_to_aoid" did

/-- The key of a slot as records have it. -/
def key (s : Slot) : Bytes := Utf8.encode s.text

/-- The kind of the record of a slot. -/
def kind : Slot → RecordKind
  | spaceKey _ => .spaceKey
  | passwordKey _ => .passwordKey
  | document _ => .document
  | didOf _ => .didOf
  | accountOf _ => .accountOf

/-- The account or the DID that a slot belongs to. -/
def owner : Slot → String
  | spaceKey account => account
  | passwordKey account => account
  | document did => did
  | didOf account => account
  | accountOf did => did

/-- A slot's key is the beginning of its kind and the owner. -/
theorem text_eq_append (s : Slot) : s.text = s.kind.start ++ s.owner := by
  cases s <;> apply RecordKey.of_eq_append

/-- Kind and owner determine the slot. -/
theorem eq_of_kind_of_owner {s t : Slot} (hkind : s.kind = t.kind)
    (howner : s.owner = t.owner) : s = t := by
  cases s <;> cases t <;> cases hkind <;> exact congrArg _ howner

/-- A slot's key determines the slot. -/
theorem text_injective {s t : Slot} (h : s.text = t.text) : s = t := by
  rw [text_eq_append, text_eq_append] at h
  obtain ⟨hkind, howner⟩ := RecordKind.start_append_inj.mp h
  exact eq_of_kind_of_owner hkind howner

/-- No two slots share a key. -/
@[simp] theorem key_inj {s t : Slot} : s.key = t.key ↔ s = t := by
  constructor
  · intro h
    exact text_injective (Utf8.encode_injective h)
  · rintro rfl
    rfl

end Slot

end DidVault
