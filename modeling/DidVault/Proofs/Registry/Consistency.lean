import DidVault.Proofs.Registry.History
import DidVault.Proofs.Registry.Reset

/-!
# The records are consistent

From a desk without records, any calls are made outside transactions that
create documents, replace password keys and wrap them anew.  However they
follow one another, and whichever of them fail, the records are at every moment
those of the accounts whose documents were created, five for each, and agree
with each other and with what was issued last
(`Registry.consistent_of_reached`).
-/

namespace DidVault

open Registry

/-- The five records of an account, as they belong together: the index names the
DID and the account of each other, the document is the one that was issued,
valid and in its canonical form, and its subject is the DID of the account's own
key, which alone is the key of the device. -/
structure Stored (records : Records) (account did : String)
    (issued : IssuedDocument) : Prop where
  didOf : records.get? (Slot.didOf account).key = some (Utf8.encode did)
  accountOf : records.get? (Slot.accountOf did).key = some (Utf8.encode account)
  passwordKey : ∃ wrapped,
  records.get? (Slot.passwordKey account).key = some wrapped
  document : records.get? (Slot.document did).key = some issued.document
  founded : ∃ document own device,
    Document.parse issued.document = .ok document ∧ document.validate = .ok () ∧
    document.canonicalBytes = issued.document ∧ normalizeDid document.id = did ∧
    records.get? (Slot.spaceKey account).key =
      some (Utf8.encode own.privatePem) ∧
    KeyPair.ofPrivatePem own.privatePem = some own ∧
    did = didOfKey own.publicPem ∧
    document.methods.filter (·.credential? == some .device) = [device] ∧
    device.publicKeyPem = some own.publicPem

/-- The indexed accounts are those whose documents were created, their records
are those of what was issued to them last, and there are no other records. -/
structure Consistent (records : Records) (events : List Event) : Prop where
  indexed : ∀ account,
    (∃ value, records.get? (Slot.didOf account).key = some value) ↔
    Created events account
  stored : ∀ account, Created events account → ∃ did issued,
    lastIssued? events account = some issued ∧ Stored records account did issued
  others : ∀ key value, records.get? key = some value → ∃ account did,
    Created events account ∧
    records.get? (Slot.didOf account).key = some (Utf8.encode did) ∧
    key ∈ (Slot.ofAccount account did).map Slot.key

namespace Registry

variable {d : Desk} {held : Holdings} {events : List Event} {account : String}
  {h : Holding}

/-- What an account holds is stored as it belongs together. -/
theorem stored_of_held (hholds : d.Holds held) (hheld : held account = some h) :
    Stored d.view.committed account h.did h.issued := by
  obtain ⟨hspace, hdocument, hdid, howner, hpassword⟩ :=
    hholds.records.of_held hheld
  have hsound := hholds.sound hheld
  obtain ⟨document, hread, hvalid, hcanonical, hsubject, hfounded⟩ :=
    hsound.document
  obtain ⟨device, hdevice, hkey⟩ := hfounded.device
  exact ⟨hdid, howner, ⟨_, hpassword⟩, hdocument, document, h.own, device,
    hread, hvalid, hcanonical, hsubject, hspace, hsound.reload, hsound.founded,
    hdevice, hkey.publishes.key⟩

/-- Records that hold what the history tracks are consistent with it. -/
theorem consistent_of_holds (hholds : d.Holds held)
    (htracks : Tracks held events) :
    Consistent d.view.committed events where
  indexed account := by
    rw [← htracks.created]
    constructor
    · rintro ⟨value, hvalue⟩
      obtain ⟨h, hheld, -⟩ := hholds.records.holder_of_didOf hvalue
      exact Option.isSome_of_eq_some hheld
    · intro hsome
      obtain ⟨h, hheld⟩ := Option.isSome_iff_exists.mp hsome
      exact ⟨_, (stored_of_held hholds hheld).didOf⟩
  stored account hcreated := by
    obtain ⟨h, hheld⟩ :=
      Option.isSome_iff_exists.mp ((htracks.created account).mpr hcreated)
    refine ⟨h.did, h.issued, ?_, stored_of_held hholds hheld⟩
    rw [← htracks.issued, hheld]
    rfl
  others key value hvalue := by
    obtain ⟨account, h, s, hheld, hmem, hkey⟩ :=
      (hholds.records key value).mp hvalue
    refine ⟨account, h.did, ?_, (stored_of_held hholds hheld).didOf, ?_⟩
    · exact (htracks.created account).mp (Option.isSome_of_eq_some hheld)
    · rw [← hkey]
      exact List.mem_map_of_mem (Holding.mem_slots hmem)

/-- Whatever calls were made and however they ended, the records are those of
the accounts whose documents were created, as they belong together, and no
others.  Of the supply of keys it is only asked that every pair is read back
from its private key and that no two found the same DID. -/
theorem consistent_of_reached {start d : Desk} {events : List Event}
    (hclosed : start.view.pending = none)
    (hempty : start.view.committed = .empty) (hdistinct : start.Distinct)
    (hreadable : start.Readable) (hreached : Reached start events d) :
    Consistent d.view.committed events := by
  obtain ⟨held, hholds, htracks⟩ :=
    hreached.holds hclosed hempty hdistinct hreadable
  exact consistent_of_holds hholds htracks

/-- A document is created, its password key is replaced and wrapped under a
third password, and a reset is asked for by an account that has no document. -/
theorem consistent_of_provided :
    ∃ created issued wrapped r events d,
      events =
        [⟨.reset ⟨0, 0⟩ (.account "other") "secret", some "other", r⟩,
          ⟨.updatePassword "account" "other" "third", some "account",
            .ok (.rewrapped wrapped)⟩,
          ⟨.reset ⟨0, 0⟩ (.account "account") "other", some "account",
            .ok (.issued issued)⟩,
          ⟨.create ⟨0, 0⟩ "account" "secret" [.client ""], some "account",
            .ok (.issued created)⟩] ∧
      Reached .provided events d ∧ Created events "account" ∧
      ¬ Created events "other" ∧ Consistent d.view.committed events := by
  obtain ⟨created, issued, wrapped, d, d₁, d₂, hcreate, -, hreset, hupdate⟩ :=
    managed_provided
  let attempt : Call := .reset ⟨0, 0⟩ (.account "other") "secret"
  have hfirst : Reached .provided _ d :=
    .call (c := .create ⟨0, 0⟩ "account" "secret" [.client ""]) .start trivial
      (Runs.map_iff.mpr ⟨_, hcreate, rfl⟩)
  have hsecond : Reached .provided _ d₁ :=
    .call (c := .reset ⟨0, 0⟩ (.account "account") "other") hfirst trivial
      (Runs.map_iff.mpr ⟨_, hreset, rfl⟩)
  have hthird : Reached .provided _ d₂ :=
    .call (c := .updatePassword "account" "other" "third") hsecond trivial
      (Runs.map_iff.mpr ⟨_, hupdate, rfl⟩)
  have hfourth : Reached .provided _ _ :=
    .call (c := attempt) hthird trivial (Runs.total attempt.run d₂)
  refine ⟨created, issued, wrapped, _, _, _, rfl, hfourth, ?_, ?_, ?_⟩
  · refine ⟨_, List.mem_of_getLast? rfl, ⟨_, _, _, rfl⟩, _, rfl⟩
  · rintro ⟨e, he, ⟨now, password, keys, hcall⟩, -⟩
    simp only [List.mem_cons, List.not_mem_nil, or_false] at he
    rcases he with rfl | rfl | rfl | rfl
    · cases hcall
    · cases hcall
    · cases hcall
    · simp at hcall
  · exact consistent_of_reached rfl rfl distinct_provided
      readable_provided hfourth

end Registry

end DidVault
