import DidVault.Proofs.Registry.Reset
import DidVault.Proofs.Registry.Rooted

/-!
# What lasts

Calls are made one after the other outside transactions, and some succeed and
some fail (`Logged`).  The own key of an account, once it is committed, stays
as it is, and so the DID that a creation answers is always the same.  A reset
stores its document where the one before was, and the index stays as it is
(`Registry.lasting_of_logged`).
-/

namespace DidVault

open DeskM Registry

/-- A call that was made, how it ended, and the committed records before and
after it. -/
structure Entry where
  call : Call
  before : Records
  outcome : Except Error Answer
  after : Records

/-- The call created a document for an account. -/
def Entry.Creates (e : Entry) (account : String) (issued : IssuedDocument) :
    Prop :=
  (∃ now password keys, e.call = .create now account password keys) ∧
    e.outcome = .ok (.issued issued)

/-- The call issued a new password key to the account that is looked up. -/
def Entry.Resets (e : Entry) (lookup : Lookup) (issued : IssuedDocument) :
    Prop :=
  (∃ now password, e.call = .reset now lookup password) ∧
  e.outcome = .ok (.issued issued)

/-- The desks that are reached by calls outside transactions, with these calls;
the last one comes first. -/
inductive Logged (start : Desk) : List Entry → Desk → Prop where
  | start : Logged start [] start
  | call {log : List Entry} {d d' : Desk} {c : Call} {r : Except Error Answer}
      (hlogged : Logged start log d) (hrun : Runs c.run d r d') :
      Logged start (⟨c, d.view.committed, r, d'.view.committed⟩ :: log) d'

namespace Logged

variable {start d : Desk} {log : List Entry} {e : Entry}

/-- The supply of keys is only used up. -/
theorem reloads (hlogged : Logged start log d) (hreloads : start.Reloads) :
    d.Reloads := by
  induction hlogged with
  | start => exact hreloads
  | call _ hrun ih => exact (Call.spends_run _ hrun).reloads ih

/-- No transaction is open behind logged calls. -/
theorem closed (hlogged : Logged start log d)
    (hclosed : start.view.pending = none) :
    d.view.pending = none := by
  induction hlogged with
  | start => exact hclosed
  | call _ hrun ih => exact Call.pending_of_run _ ih hrun

/-- The committed records stay rooted over every log. -/
theorem rooted (hlogged : Logged start log d)
    (hclosed : start.view.pending = none)
    (hrooted : Sight.Rooted start.view.committed.get?) :
    Sight.Rooted d.view.committed.get? := by
  induction hlogged with
  | start => exact hrooted
  | call hlogged hrun ih =>
      exact Call.rooted_of_run (hlogged.closed hclosed) ih hrun

/-- A call was made at a desk that the calls before it had reached. -/
theorem exists_run (hlogged : Logged start log d) (he : e ∈ log) :
    ∃ earlier b a, Logged start earlier b ∧ Runs e.call.run b e.outcome a ∧
      e.before = b.view.committed ∧ e.after = a.view.committed := by
  induction hlogged with
  | start => cases he
  | call hlogged hrun ih =>
      rcases List.mem_cons.mp he with rfl | he
      · exact ⟨_, _, _, hlogged, hrun, rfl, rfl⟩
      · exact ih he

/-- An own key that was there before or after a call is still there. -/
theorem spaceKey {account : String} {value : Bytes}
    (hlogged : Logged start log d) (hclosed : start.view.pending = none)
    (he : e ∈ log)
    (hvalue : e.before.get? (Slot.spaceKey account).key = some value ∨
      e.after.get? (Slot.spaceKey account).key = some value) :
    d.view.committed.get? (Slot.spaceKey account).key = some value := by
  induction hlogged with
  | start => cases he
  | call hlogged hrun ih =>
      have hended := hlogged.closed hclosed
      rcases List.mem_cons.mp he with rfl | he
      · exact hvalue.elim (Call.spaceKey_of_run hended hrun) id
      · exact Call.spaceKey_of_run hended hrun (ih he)

end Logged

namespace Registry

/-- However calls follow one another, the own key of an account stays as it is
once it is there.  All creations for an account answer the same DID, which is
that of its own key.  Where all documents were issued and the index is one to
one, as it is without records, a reset answers the DID that its account was
indexed under, removes no document and leaves the index as it is.  Of the supply
of keys it is only asked that pairs are read back from their private keys. -/
theorem lasting_of_logged {start d : Desk} {log : List Entry}
    (hclosed : start.view.pending = none) (hreloads : start.Reloads)
    (hlogged : Logged start log d) :
    (∀ e ∈ log, ∀ account value,
        e.before.get? (Slot.spaceKey account).key = some value ∨
          e.after.get? (Slot.spaceKey account).key = some value →
        d.view.committed.get? (Slot.spaceKey account).key = some value) ∧
      (∀ e ∈ log, ∀ account issued, e.Creates account issued →
        (∃ pem own,
          d.view.committed.get? (Slot.spaceKey account).key =
            some (Utf8.encode pem) ∧
          KeyPair.ofPrivatePem pem = some own ∧
          issued.did =
            "did:aospace:" ++ Address.spaceId (Utf8.encode own.publicPem)
              ++ "#did0") ∧
        ∀ e' ∈ log, ∀ issued', e'.Creates account issued' →
          issued'.did = issued.did) ∧
      (Sight.Rooted start.view.committed.get? →
        ∀ e ∈ log, ∀ lookup issued, e.Resets lookup issued →
          ∃ account, account? e.before.get? lookup = some account ∧
            Replaces e.before e.after account
              (normalizeDid issued.did) issued.document) := by
  have hnamed : ∀ e ∈ log, ∀ account issued, e.Creates account issued →
      ∃ pem own, d.view.committed.get? (Slot.spaceKey account).key =
        some (Utf8.encode pem) ∧
        KeyPair.ofPrivatePem pem = some own ∧
        issued.did =
          didOfKey own.publicPem ++ Names.reference Names.defaultFragment := by
    rintro e he account issued ⟨⟨now, password, keys, hcall⟩, houtcome⟩
    obtain ⟨earlier, b, a, hearlier, hrun, -, hafter⟩ := hlogged.exists_run he
    rw [hcall, houtcome] at hrun
    obtain ⟨pem, own, hstored, hread⟩ :=
      named_of_create (hearlier.closed hclosed) (hearlier.reloads hreloads) hrun
    rw [← hafter] at hstored
    exact ⟨pem, own, hlogged.spaceKey hclosed he (.inr hstored), hread⟩
  refine ⟨fun e he account value => hlogged.spaceKey hclosed he, ?_, ?_⟩
  · intro e he account issued hcreates
    obtain ⟨pem, own, hstored, hread, hdid⟩ :=
      hnamed e he account issued hcreates
    refine ⟨⟨pem, own, hstored, hread, hdid⟩,
      fun e' he' issued' hcreates' => ?_⟩
    obtain ⟨pem', own', hstored', hread', hdid'⟩ :=
      hnamed e' he' account issued' hcreates'
    obtain rfl :=
      Utf8.encode_injective (Option.some.inj (hstored'.symm.trans hstored))
    obtain rfl := Option.some.inj (hread'.symm.trans hread)
    exact hdid'.trans hdid.symm
  · rintro hrooted e he lookup issued ⟨⟨now, password, hcall⟩, houtcome⟩
    obtain ⟨earlier, b, a, hearlier, hrun, hbefore, hafter⟩ :=
      hlogged.exists_run he
    rw [hcall, houtcome] at hrun
    rw [hbefore, hafter]
    exact replaces_of_reset (hearlier.closed hclosed)
      (hearlier.rooted hclosed hrooted) hrun

/-- A document is created, its password key is replaced, and the password of
the new one is changed. -/
theorem lasting_of_provided :
    ∃ log d created issued, Logged .provided log d ∧ log.length = 3 ∧
      (∃ e ∈ log, e.Creates "account" created) ∧
      (∃ pem own,
        d.view.committed.get? (Slot.spaceKey "account").key =
          some (Utf8.encode pem) ∧
        KeyPair.ofPrivatePem pem = some own ∧
        created.did = "did:aospace:" ++
          Address.spaceId (Utf8.encode own.publicPem) ++ "#did0") ∧
      Sight.Rooted Desk.provided.view.committed.get? ∧
      ∃ e ∈ log, e.Resets (.account "account") issued ∧
        Replaces e.before e.after "account" (normalizeDid issued.did)
          issued.document := by
  obtain ⟨created, issued, wrapped, d, d₁, d₂, hcreate, -, hreset, hupdate⟩ :=
    managed_provided
  have hfirst : Logged .provided _ d :=
    .call (c := .create ⟨0, 0⟩ "account" "secret" [.client ""]) .start
      (Runs.map_iff.mpr ⟨_, hcreate, rfl⟩)
  have hsecond : Logged .provided _ d₁ :=
    .call (c := .reset ⟨0, 0⟩ (.account "account") "other") hfirst
      (Runs.map_iff.mpr ⟨_, hreset, rfl⟩)
  have hthird : Logged .provided _ d₂ :=
    .call (c := .updatePassword "account" "other" "third") hsecond
      (Runs.map_iff.mpr ⟨_, hupdate, rfl⟩)
  have hreloads : Desk.provided.Reloads :=
    fun _ hpair => ⟨_, readable_provided hpair, rfl⟩
  obtain ⟨-, hnamed, hkept⟩ := lasting_of_logged rfl hreloads hthird
  let creation : Entry := ⟨.create ⟨0, 0⟩ "account" "secret" [.client ""],
    Desk.provided.view.committed, .ok (.issued created), d.view.committed⟩
  let renewal : Entry := ⟨.reset ⟨0, 0⟩ (.account "account") "other",
    d.view.committed, .ok (.issued issued), d₁.view.committed⟩
  let change : Entry := ⟨.updatePassword "account" "other" "third",
    d₁.view.committed, .ok (.rewrapped wrapped), d₂.view.committed⟩
  have hcreated : creation ∈ [change, renewal, creation] :=
    List.mem_of_getLast? rfl
  have hrenewed : renewal ∈ [change, renewal, creation] :=
    List.mem_cons_of_mem _ List.mem_cons_self
  have hcreates : creation.Creates "account" created := ⟨⟨_, _, _, rfl⟩, rfl⟩
  have hresets : renewal.Resets (.account "account") issued :=
    ⟨⟨_, _, rfl⟩, rfl⟩
  obtain ⟨account, haccount, hreplaces⟩ :=
    hkept .start renewal hrenewed _ _ hresets
  obtain rfl := Option.some.inj haccount
  exact ⟨[change, renewal, creation], d₂, created, issued, hthird, rfl,
    ⟨creation, hcreated, hcreates⟩,
    (hnamed creation hcreated _ _ hcreates).1, .start, renewal, hrenewed,
    hresets, hreplaces⟩

end Registry

end DidVault
