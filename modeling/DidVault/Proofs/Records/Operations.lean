import DidVault.Proofs.Records.Changes

/-!
# What operations on the records change

Every operation has a lemma that lists its changes (`makes_…`), and those that
read have one that says what they find.  A single call changes nothing when it
fails.  For the index between accounts and DIDs the changes are listed by
`indexChanges`: at most two removals, so that no entry is left that points to a
partner which points elsewhere, and the two new entries.
-/

namespace DidVault

variable {v v' : View} {s : Slot}

namespace Sight

variable {look : Sight}

/-- A text that a slot holds is found there. -/
theorem text?_eq {found : Option String}
    (hfound : look s.key = found.map Utf8.encode) : look.text? s = found := by
  rw [text?, hfound]
  cases found with
  | none => rfl
  | some text =>
      rw [Option.map_some, Option.bind_some, Utf8.decode_encode]
      rfl

/-- A text that is found is what the record holds, byte for byte. -/
theorem eq_of_text? {text : String} (htext : look.text? s = some text) :
    look s.key = some (Utf8.encode text) := by
  rw [text?, Option.bind_eq_some_iff] at htext
  obtain ⟨bytes, hbytes, hdecode⟩ := htext
  cases hresult : Utf8.decode bytes with
  | error fault =>
      rw [hresult] at hdecode
      cases hdecode
  | ok decoded =>
      rw [hresult] at hdecode
      cases hdecode
      rw [hbytes, Utf8.encode_of_decode hresult]

/-- Reading a text and writing it are each other's inverse. -/
theorem text?_eq_some_iff {text : String} :
    look.text? s = some text ↔ look s.key = some (Utf8.encode text) :=
  ⟨eq_of_text?, fun h => text?_eq h⟩

end Sight

namespace RecordsM

/-- A call is counted, and nothing else happens in it; it fails if it is
refused. -/
theorem call_iff {r : Except StoreError Unit} :
    Runs call v r v' ↔
      r = (match v.refusal v.calls with
        | some e => .error e
        | none => .ok ()) ∧
      v' = { v with calls := v.calls + 1 } := by
  unfold call
  rw [Runs.get_bind, Runs.set_bind]
  cases v.refusal v.calls with
  | some e => exact Runs.throw_iff
  | none => exact Runs.pure_iff

/-- Counting a call changes no record. -/
theorem call_changed {r : Except StoreError Unit} (hrun : Runs call v r v') :
    v.Changed [] v' := by
  rw [(call_iff.mp hrun).2]
  exact .counted ..

/-- A call by itself makes no change, whether or not it is refused. -/
theorem makes_call : Makes id call v [] where
  ok hrun := call_changed hrun
  error hrun := .none (call_changed hrun) []

/-- A call that is not refused succeeds. -/
theorem call_of_unrefused (hfree : v.refusal v.calls = none) :
    Runs call v (.ok ()) { v with calls := v.calls + 1 } :=
  call_iff.mpr ⟨by rw [hfree], rfl⟩

/-- A call fails with what it is refused with. -/
theorem refusal_of_call {e : StoreError} (hrun : Runs call v (.error e) v') :
    v.refusal v.calls = some e := by
  have hend := (call_iff.mp hrun).1
  cases hrefusal : v.refusal v.calls with
  | some f =>
      rw [hrefusal] at hend
      cases hend
      rfl
  | none =>
      rw [hrefusal] at hend
      cases hend

/-- What is read is what is there. -/
theorem read?_ok {found : Option Bytes}
    (hrun : Runs (read? s.text) v (.ok found) v') :
    found = v.lookup s.key := by
  obtain ⟨u, v₁, hcall, hrest⟩ := Runs.bind_ok.mp hrun
  simp only [Runs.bind_ok, Runs.get_iff, Runs.pure_iff, Except.ok.injEq]
    at hrest
  obtain ⟨_, _, ⟨rfl, rfl⟩, rfl, -⟩ := hrest
  exact congrFun (call_changed hcall).lookup s.key

/-- A call that is not refused reads what is visible under the key. -/
theorem read?_of_free (key : String) (hfree : v.refusal v.calls = none) :
    Runs (read? key) v (.ok (v.lookup (Utf8.encode key)))
      { v with calls := v.calls + 1 } := by
  unfold read?
  rw [Runs.bind_of_ok (call_of_unrefused hfree), Runs.get_bind]
  exact Runs.pure_iff.mpr ⟨rfl, rfl⟩

/-- A call that is not refused writes the value under the key. -/
theorem put_of_free (key : String) (value : Bytes)
    (hfree : v.refusal v.calls = none) :
    Runs (put key value) v (.ok ())
      (View.write { v with calls := v.calls + 1 } (Utf8.encode key)
        (some value)) := by
  unfold put
  rw [Runs.bind_of_ok (call_of_unrefused hfree)]
  exact Runs.modify_iff.mpr ⟨rfl, rfl⟩

/-- A call that is not refused removes what is under the key. -/
theorem delete_of_free (key : String) (hfree : v.refusal v.calls = none) :
    Runs (delete key) v (.ok ())
      (View.write { v with calls := v.calls + 1 } (Utf8.encode key) none) := by
  unfold delete
  rw [Runs.bind_of_ok (call_of_unrefused hfree)]
  exact Runs.modify_iff.mpr ⟨rfl, rfl⟩

/-- The record of a slot is read, if the call is not refused. -/
theorem read?_of_unrefused (hfree : v.refusal v.calls = none) :
    Runs (read? s.text) v (.ok (v.lookup s.key))
      { v with calls := v.calls + 1 } :=
  read?_of_free s.text hfree

/-- The record of a slot is written, if the call is not refused. -/
theorem put_of_unrefused (s : Slot) (value : Bytes)
    (hfree : v.refusal v.calls = none) :
    Runs (put s.text value) v (.ok ())
      (View.write { v with calls := v.calls + 1 } s.key (some value)) :=
  put_of_free s.text value hfree

/-- The record of a slot is removed, if the call is not refused. -/
theorem delete_of_unrefused (s : Slot) (hfree : v.refusal v.calls = none) :
    Runs (delete s.text) v (.ok ())
      (View.write { v with calls := v.calls + 1 } s.key none) :=
  delete_of_free s.text hfree

/-- Reading changes nothing. -/
theorem makes_read? : Makes id (read? s.text) v [] :=
  makes_call.bind fun _ _ _ => Makes.get.bind fun _ _ _ => .pure _

/-- Writing changes the slot that is written. -/
theorem makes_put (value : Bytes) :
    Makes id (put s.text value) v [(s, some value)] :=
  makes_call.bind fun _ v₁ _ => .modify (.write v₁ s (some value))

/-- Removing changes the slot that is emptied. -/
theorem makes_delete : Makes id (delete s.text) v [(s, none)] :=
  makes_call.bind fun _ v₁ _ => .modify (.write v₁ s none)

/-- A record cannot be read only if the call is refused. -/
theorem refusal_of_read? {key : String} {e : StoreError}
    (hrun : Runs (read? key) v (.error e) v') :
    v.refusal v.calls = some e := by
  rcases Runs.bind_error.mp hrun with hcall | ⟨u, v₁, -, hrest⟩
  · exact refusal_of_call hcall
  · rw [Runs.get_bind] at hrest
    cases (Runs.pure_iff.mp hrest).1

/-- A record cannot be written only if the call is refused. -/
theorem refusal_of_put {key : String} {value : Bytes} {e : StoreError}
    (hrun : Runs (put key value) v (.error e) v') :
    v.refusal v.calls = some e := by
  rcases Runs.bind_error.mp hrun with hcall | ⟨u, v₁, -, hrest⟩
  · exact refusal_of_call hcall
  · cases (Runs.modify_iff.mp hrest).1

/-- A record that is not written stays as it is. -/
theorem put_error {value : Bytes} {e : StoreError}
    (hrun : Runs (put s.text value) v (.error e) v') : v.Changed [] v' := by
  rcases Runs.bind_error.mp hrun with hcall | ⟨u, v₁, -, hrest⟩
  · exact call_changed hcall
  · obtain ⟨h, -⟩ := Runs.modify_iff.mp hrest
    cases h

/-- Decoding what was read changes nothing. -/
theorem makes_textOf (what : String) (bytes : Bytes) :
    Makes id (textOf what bytes) v [] := by
  unfold textOf
  split
  · exact .pure _
  · exact .throw _ []

/-- A text that is read is what the record holds, byte for byte. -/
theorem readText?_ok {what : String} {found : Option String}
    (hrun : Runs (readText? what s.text) v (.ok found) v') :
    v.lookup s.key = found.map Utf8.encode := by
  obtain ⟨bytes?, v₁, hread, hrest⟩ := Runs.bind_ok.mp hrun
  obtain rfl := read?_ok hread
  cases hbytes : v.lookup s.key with
  | none =>
      rw [hbytes] at hrest
      obtain ⟨hfound, -⟩ := Runs.pure_iff.mp hrest
      cases hfound
      rfl
  | some bytes =>
      rw [hbytes] at hrest
      obtain ⟨text, v₂, htext, hdone⟩ := Runs.bind_ok.mp hrest
      obtain ⟨hfound, -⟩ := Runs.pure_iff.mp hdone
      cases hfound
      unfold textOf at htext
      split at htext
      · next decoded hdecode =>
          obtain ⟨h, -⟩ := Runs.pure_iff.mp htext
          cases h
          exact congrArg some (Utf8.encode_of_decode hdecode).symm
      · obtain ⟨h, -⟩ := Runs.throw_iff.mp htext
        cases h

/-- A text that a slot holds is read, unless the call is refused. -/
theorem readText?_of_found {found : Option String} (what : String)
    (hfound : v.lookup s.key = found.map Utf8.encode) :
    Runs (readText? what s.text) v
      (match v.refusal v.calls with
          | some f => .error f
          | none => .ok found)
        { v with calls := v.calls + 1 } := by
  unfold readText?
  cases hrefusal : v.refusal v.calls with
  | some f =>
      have hcall : Runs call v (.error f) { v with calls := v.calls + 1 } :=
        call_iff.mpr ⟨by rw [hrefusal], rfl⟩
      have hread :
          Runs (read? s.text) v (.error f) { v with calls := v.calls + 1 } :=
        (Runs.bind_of_error hcall).mpr ⟨rfl, rfl⟩
      exact (Runs.bind_of_error hread).mpr ⟨rfl, rfl⟩
  | none =>
      rw [Runs.bind_of_ok (read?_of_unrefused hrefusal), hfound]
      cases found with
      | none => exact Runs.pure_iff.mpr ⟨rfl, rfl⟩
      | some text =>
          have hdecode :
              Runs (textOf what (Utf8.encode text))
                { v with calls := v.calls + 1 } (.ok text)
                  { v with calls := v.calls + 1 } := by
            unfold textOf
            rw [Utf8.decode_encode]
            exact Runs.pure_iff.mpr ⟨rfl, rfl⟩
          exact (Runs.bind_of_ok hdecode).mpr (Runs.pure_iff.mpr ⟨rfl, rfl⟩)

/-- Reading a text changes nothing. -/
theorem makes_readText? (what : String) :
    Makes id (readText? what s.text) v [] := by
  refine makes_read?.bind fun found v₁ _ => ?_
  cases found with
  | none => exact .pure _
  | some bytes => exact (makes_textOf what bytes).bind fun _ _ _ => .pure _

/-- Removes a record, if there is one to remove. -/
def deleteAny : Option Slot → RecordsM Unit
  | some s => delete s.text
  | none => pure ()

end RecordsM

/-- The removal of a record, if there is one to remove. -/
def removal (s : Option Slot) : List Change :=
  s.toList.map fun s => (s, none)

/-- What was found, unless it is what is about to be written anyway. -/
def stale (found : Option String) (kept : String) : Option String :=
  found.filter (· ≠ kept)

/-- What is kept is not stale. -/
theorem stale_self (kept : String) : stale (some kept) kept = none := by
  simp [stale, Option.filter]

/-- What differs from what is kept is stale. -/
theorem stale_of_ne {found kept : String} (h : found ≠ kept) :
    stale (some found) kept = some found := by
  simp [stale, Option.filter, h]

/-- The slot that points back to an account from a DID that it loses. -/
def staleOwner (look : Sight) (account did : String) : Option Slot :=
  (stale (look.text? (.didOf account)) did).map fun previous =>
    .accountOf (normalizeDid previous)

/-- The slot that points to a DID from an account that loses it. -/
def staleDid (look : Sight) (account did : String) : Option Slot :=
  (stale (look.text? (.accountOf did)) account).map .didOf

/-- What indexing an account under a DID changes; the query and fragment of the
DID are gone already. -/
def indexChanges (look : Sight) (account did : String) : List Change :=
  let owner := removal (staleOwner look account did)
  owner ++ removal (staleDid (look.after owner) account did)
    ++ [(.didOf account, some (Utf8.encode did)),
      (.accountOf did, some (Utf8.encode account))]

namespace RecordsM

/-- Removing what is to be removed changes that slot, if there is one. -/
theorem makes_deleteAny (slot : Option Slot) :
    Makes id (deleteAny slot) v (removal slot) := by
  cases slot with
  | none => exact .pure ()
  | some s => exact makes_delete

/-- A step that removes what was found, unless it is kept, is the removal of
what is stale. -/
theorem bind_stale {m : Type → Type} [Monad m] [LawfulMonad m] {α : Type}
    {find : m (Option String)} {step : Option String → m α} {rest : m α}
    (remove : Option Slot → m Unit) (slot : String → Slot) (kept : String)
    (hskip : remove none = pure ())
    (hsome : ∀ found, step (some found) =
      if found ≠ kept then remove (some (slot found)) >>= fun _ =>
        step none else step none)
    (hnone : step none = rest) :
    find >>= step = find >>= fun p =>
      remove ((stale p kept).map slot) >>= fun _ => rest := by
  subst hnone
  refine bind_congr fun p => ?_
  have hkeep : (remove none >>= fun _ => step none) = step none := by
    rw [hskip, pure_bind]
  cases p with
  | none => exact hkeep.symm
  | some found =>
      rw [hsome]
      by_cases h : found = kept
      · rw [h, stale_self]
        exact (if_neg (not_not.mpr rfl)).trans hkeep.symm
      · rw [stale_of_ne h]
        exact if_pos h

/-- Indexing, with the two removals as steps of their own. -/
theorem saveIndex_eq (account did : String) :
    saveIndex account did =
      (do
        let previous ← didOf? account
        deleteAny ((stale previous (normalizeDid did)).map fun p =>
          .accountOf (normalizeDid p))
        let owner ← readText? "indexed aoId"
            (Slot.accountOf (normalizeDid did)).text
        deleteAny ((stale owner account).map .didOf)
        put (Slot.didOf account).text (Utf8.encode (normalizeDid did))
        put (Slot.accountOf (normalizeDid did)).text
          (Utf8.encode account)) := by
  have hkey : RecordKey.accountOf (normalizeDid did) =
      (Slot.accountOf (normalizeDid did)).text := by
    rw [RecordKey.accountOf, normalizeDid_normalizeDid]
    rfl
  simp only [saveIndex, accountOf?, hkey]
  refine bind_stale deleteAny (fun p => .accountOf (normalizeDid p)) _ rfl
    (fun _ => rfl) ?_
  exact bind_stale deleteAny .didOf account rfl (fun _ => rfl) rfl

/-- Removes what points back to an account from the DID before. -/
def dropOwner (account did : String) : RecordsM Unit := do
  let previous ← didOf? account
  deleteAny ((stale previous did).map fun p => .accountOf (normalizeDid p))

/-- Removes what points to a DID from the account before. -/
def dropDid (account did : String) : RecordsM Unit := do
  let owner ← readText? "indexed aoId" (Slot.accountOf did).text
  deleteAny ((stale owner account).map .didOf)

/-- Indexing is two removals and two records that are written. -/
theorem saveIndex_drops (account did : String) :
    saveIndex account did =
      (do
        dropOwner account (normalizeDid did)
        dropDid account (normalizeDid did)
        put (Slot.didOf account).text (Utf8.encode (normalizeDid did))
        put (Slot.accountOf (normalizeDid did)).text
          (Utf8.encode account)) := by
  simp only [saveIndex_eq, dropOwner, dropDid, bind_assoc]

/-- A record is written as a whole or not at all. -/
theorem atOnce_put (value : Bytes) :
    MakesAtOnce id (put s.text value) v [(s, some value)] where
  ok hrun := (makes_put value).ok hrun
  error hrun := put_error hrun

/-- A record that is not removed stays as it is. -/
theorem atOnce_deleteAny (slot : Option Slot) :
    MakesAtOnce id (deleteAny slot) v (removal slot) where
  ok hrun := (makes_deleteAny slot).ok hrun
  error hrun := by
    cases slot with
    | none => cases (Runs.pure_iff.mp hrun).1
    | some s =>
        rcases Runs.bind_error.mp hrun with hcall | ⟨u, v₁, -, hrest⟩
        · exact call_changed hcall
        · cases (Runs.modify_iff.mp hrest).1

/-- What points back to the account is removed as a whole or not at all. -/
theorem atOnce_dropOwner (account did : String) :
    MakesAtOnce id (dropOwner account did) v
      (removal (staleOwner v.lookup account did)) := by
  have hread : Makes id (didOf? account) v [] :=
    makes_readText? (s := .didOf account) _
  refine .bind hread fun previous v₁ hprevious => ?_
  have hfound := Sight.text?_eq (readText?_ok (s := .didOf account) hprevious)
  rw [staleOwner, hfound]
  exact atOnce_deleteAny _

/-- What points to the DID is removed as a whole or not at all. -/
theorem atOnce_dropDid (account did : String) :
    MakesAtOnce id (dropDid account did) v
      (removal (staleDid v.lookup account did)) := by
  refine .bind (makes_readText? _) fun owner v₁ howner => ?_
  rw [staleDid, Sight.text?_eq (readText?_ok howner)]
  exact atOnce_deleteAny _

/-- Indexing makes its changes in their order: the removals, and the two
entries. -/
theorem makes_saveIndex (account did : String) :
    Makes id (saveIndex account did) v
      (indexChanges v.lookup account (normalizeDid did)) := by
  rw [saveIndex_drops, indexChanges, List.append_assoc]
  have howner := atOnce_dropOwner (v := v) account (normalizeDid did)
  refine howner.makes.bind fun _ v₁ hdropped => ?_
  have hlook : v₁.lookup = _ := (howner.ok hdropped).lookup
  have hdid := atOnce_dropDid (v := v₁) account (normalizeDid did)
  rw [hlook] at hdid
  exact hdid.makes.bind fun _ _ _ =>
    (makes_put _).bind fun _ _ _ => makes_put _

end RecordsM

end DidVault
