import DidVault.Proofs.Keys.Wrapping
import DidVault.Registry

/-!
# Wrapping a password key anew

The record of a password key is read, opened under the old password, wrapped
under the new one and written, in this order.  Whatever fails, fails before the
record is written (`RotationFault`), so that all records are as before even
without a transaction.  If nothing fails, the record is the new blob, and it is
opened under the new password to the pair to which the old one was opened under
the old password; this needs no more than that the private key of this pair is
read back as the pair (`KeyPair.Reloads`).  So a password can be changed and
changed back (`Custody.rotate_settled`).
-/

namespace DidVault

/-- The private key of the pair is read back as the pair. -/
def KeyPair.Reloads (pair : KeyPair) : Prop :=
  KeyPair.ofPrivatePem pair.privatePem = some pair

/-- What the surroundings of an operation may fail to give. -/
inductive Desk.Shortage (d : Desk) : Error → Prop where
  /-- The store refuses a call. -/
  | store {n : Nat} {e : StoreError} (hrefused : d.view.refusal n = some e) :
    Shortage d (.store e)
  /-- There are too few random bytes for a first block. -/
  | entropy (hshort : d.entropy.length < Cbc.blockLength) :
    Shortage d (.key .noEntropy)

namespace Custody

open DeskM

variable {d d' : Desk} {account old new : String} {pair : KeyPair}
  {blob : Bytes} {e : Error}

/-- The stored password key of the account is opened under the password to the
pair. -/
def Opens (look : Sight) (account password : String) (pair : KeyPair) : Prop :=
  ∃ wrapped, look (Slot.passwordKey account).key = some wrapped ∧
    Wrapping.unwrapKey wrapped password = .ok pair

/-- Why the password key of an account is not wrapped anew. -/
inductive RotationFault (account old : String) (d : Desk) : Error → Prop where
  /-- The account has no password key. -/
  | absent (habsent : d.view.lookup (Slot.passwordKey account).key = none) :
      RotationFault account old d
        (.notFound ("password key for aoId " ++ account))
  /-- The blob is malformed, or the password is not the one of the blob. -/
  | unopened {wrapped : Bytes} {e : KeyError}
      (hfound : d.view.lookup (Slot.passwordKey account).key = some wrapped)
      (hopen : Wrapping.unwrapKey wrapped old = .error e) :
        RotationFault account old d (.key e)
  | shortage {e : Error} (hshortage : d.Shortage e) :
    RotationFault account old d e

/-- A rotation that fails has one of the faults. -/
theorem fault_of_rotate (hrun : Runs (rotate account old new) d (.error e) d') :
    RotationFault account old d e := by
  rcases Runs.bind_error.mp hrun with hread | ⟨found, d₁, hread, hrest⟩
  · obtain ⟨r, v₁, hcall, -, hr⟩ := records_iff.mp hread
    cases r with
    | ok found => cases hr
    | error f =>
        cases hr
        exact .shortage (.store (RecordsM.refusal_of_read? hcall))
  · have hrefusal := (makes_passwordKey?.ok hread).refusal
    obtain ⟨v₁, hfound, rfl⟩ := records_ok hread
    have hlook := RecordsM.read?_ok (s := .passwordKey account) hfound
    cases found with
    | none =>
        obtain ⟨h, -⟩ := Runs.throw_iff.mp hrest
        cases h
        exact .absent hlook.symm
    | some wrapped =>
        rcases Runs.bind_error.mp hrest with hopen | ⟨pair, d₂, hopen, hrest⟩
        · obtain ⟨f, hfault, rfl, -⟩ := ofKeys_error.mp hopen
          exact .unopened hlook.symm hfault
        · obtain ⟨-, rfl⟩ := ofKeys_ok.mp hopen
          rcases Runs.bind_error.mp hrest with
            hwrap | ⟨rewrapped, d₃, hwrap, hrest⟩
          · rcases wrap_cases hwrap with ⟨hshort, h⟩ | ⟨-, h, -⟩
            · cases h
              exact .shortage (.entropy hshort)
            · cases h
          · have hkept := leavesView_wrap _ _ hwrap
            rcases Runs.bind_error.mp hrest with hput | ⟨u, d₄, -, hdone⟩
            · obtain ⟨r, v₃, hcall, -, hr⟩ := records_iff.mp hput
              cases r with
              | ok u => cases hr
              | error f =>
                  cases hr
                  have hrefused := RecordsM.refusal_of_put hcall
                  rw [hkept, hrefusal] at hrefused
                  exact .shortage (.store hrefused)
            · cases (Runs.pure_iff.mp hdone).1

/-- What was opened under the old password is opened under the new one, if its
private key is read back. -/
theorem reopened_of_rotate (hopens : Opens d.view.lookup account old pair)
    (hreloads : pair.Reloads)
    (hrun : Runs (rotate account old new) d (.ok blob) d') :
    Wrapping.unwrapKey blob new = .ok pair := by
  obtain ⟨wrapped, hfound, hopen⟩ := hopens
  obtain ⟨stored, opened, iv, hstored, hopened, hiv, rfl⟩ :=
    opened_of_rotate hrun
  obtain rfl := Option.some.inj (hstored.symm.trans hfound)
  obtain rfl := Except.ok.inj (hopened.symm.trans hopen)
  exact Wrapping.unwrapKey_wrapWith hiv hreloads new

/-- A password key that can be opened is wrapped anew unless the surroundings
fail. -/
theorem shortage_of_rotate (hopens : Opens d.view.lookup account old pair)
    (hrun : Runs (rotate account old new) d (.error e) d') : d.Shortage e := by
  obtain ⟨wrapped, hfound, hopen⟩ := hopens
  cases fault_of_rotate hrun with
  | absent habsent =>
      rw [hfound] at habsent
      cases habsent
  | unopened hstored hclosed =>
      obtain rfl := Option.some.inj (hstored.symm.trans hfound)
      rw [hopen] at hclosed
      cases hclosed
  | shortage hshortage => exact hshortage

/-- Outside a transaction, and where the store refuses nothing, a password key
that can be opened gets a new password. -/
theorem succeeds_updatePassword (hclosed : d.view.pending = none)
    (hfree : ∀ n, d.view.refusal n = none)
    (henough : Cbc.blockLength ≤ d.entropy.length)
    (hopens : Opens d.view.committed.get? account old pair) :
    Succeeds (Registry.updatePassword account old new) d := by
  obtain ⟨r, d', hrun⟩ := Runs.ends (Registry.updatePassword account old new) d
  cases r with
  | ok blob => exact ⟨blob, d', hrun⟩
  | error e =>
      obtain ⟨d₁, hrotate, -⟩ := (transactionally_of_closed hclosed).mp hrun
      have hbegun : Opens d.view.begin.lookup account old pair := hopens
      cases shortage_of_rotate (d := { d with view := d.view.begin }) hbegun
        hrotate with
      | store hrefused => cases (hfree _).symm.trans hrefused
      | entropy hshort => exact absurd hshort (Nat.not_lt.mpr henough)

/-- A password key is not wrapped anew for one of few reasons, and then every
record is as it was.  Otherwise its record is the answer and no other record has
changed; the answer is opened under the new password to the pair to which the
record was opened under the old one.  Wherever it is the record, changing the
password back gives a blob that is opened under the old password to the same
pair, unless the surroundings fail. -/
theorem rotate_settled (account old new : String) (d : Desk)
    (r : Except Error Bytes) (d' : Desk)
    (hrun : Runs (rotate account old new) d r d') : match r with
      | .error e => RotationFault account old d e ∧ d.view.Changed [] d'.view
      | .ok blob =>
        d.view.Changed [(.passwordKey account, some blob)] d'.view ∧
          ∃ pair, Opens d.view.lookup account old pair ∧
            (pair.Reloads → Wrapping.unwrapKey blob new = .ok pair ∧
              ∀ d₁ r₁ d₂,
                d₁.view.lookup (Slot.passwordKey account).key = some blob →
                Runs (rotate account new old) d₁ r₁ d₂ →
                  match r₁ with
                  | .error e => d₁.Shortage e
                  | .ok back => Wrapping.unwrapKey back old = .ok pair) := by
  cases r with
  | error e =>
      exact ⟨fault_of_rotate hrun, failsClean_rotate account old new hrun⟩
  | ok blob =>
      obtain ⟨wrapped, pair, -, hfound, hopen, -⟩ := opened_of_rotate hrun
      have hopens : Opens d.view.lookup account old pair :=
        ⟨wrapped, hfound, hopen⟩
      refine ⟨rotate_ok hrun, pair, hopens, fun hreloads => ?_⟩
      have hreopened := reopened_of_rotate hopens hreloads hrun
      refine ⟨hreopened, fun d₁ r₁ d₂ hstored hback => ?_⟩
      have hopens₁ : Opens d₁.view.lookup account new pair :=
        ⟨blob, hstored, hreopened⟩
      cases r₁ with
      | error e => exact shortage_of_rotate hopens₁ hback
      | ok back => exact reopened_of_rotate hopens₁ hreloads hback

/-- A desk where an account has a password key, and where nothing is refused. -/
def keeping (account : String) (wrapped : Bytes) : Desk where
  view :=
    { committed := Table.empty.insert (Slot.passwordKey account).key wrapped }
  source := { outcome := fun _ => .error .exhausted }
  entropy := List.replicate Cbc.blockLength 0

/-- The example keeps a wrapped key. -/
theorem lookup_keeping (account : String) (wrapped : Bytes) :
    (keeping account wrapped).view.lookup (Slot.passwordKey account).key =
      some wrapped := by
  rw [View.lookup_of_closed rfl]
  exact (Table.get?_insert ..).trans (if_pos rfl)

/-- The example is short of nothing. -/
theorem not_shortage_keeping (account : String) (wrapped : Bytes) :
    ¬ (keeping account wrapped).Shortage e := by
  intro h
  cases h with
  | store hrefused => cases hrefused
  | entropy hshort => exact Nat.lt_irrefl _ hshort

/-- The key of a small pair is wrapped under a new password and under the old
one again. -/
theorem rotate_settled_small :
    ∃ wrapped blob back d' d₂,
      Runs (rotate "account" "old" "new") (keeping "account" wrapped)
        (.ok blob) d' ∧
        Wrapping.unwrapKey blob "new" = .ok .small ∧
      Runs (rotate "account" "new" "old") (keeping "account" blob)
        (.ok back) d₂ ∧
        Wrapping.unwrapKey back "old" = .ok .small := by
  let wrapped :=
    Wrapping.wrapWith (List.replicate 16 0)
      (Utf8.encode KeyPair.small.privatePem) "old"
  have hopen : Wrapping.unwrapKey wrapped "old" = .ok .small :=
    Wrapping.unwrapKey_wrapWith rfl KeyPair.readable_small "old"
  have hopens :
      Opens (keeping "account" wrapped).view.lookup "account" "old" .small :=
    ⟨wrapped, lookup_keeping _ _, hopen⟩
  obtain ⟨r, d', hrun⟩ :=
    Runs.ends (rotate "account" "old" "new") (keeping "account" wrapped)
  cases r with
  | error e =>
      exact absurd (shortage_of_rotate hopens hrun) (not_shortage_keeping _ _)
  | ok blob =>
      obtain ⟨-, pair, ⟨found, hfound, hopened⟩, hreopens⟩ :=
        rotate_settled _ _ _ _ _ _ hrun
      obtain rfl := Option.some.inj ((lookup_keeping _ _).symm.trans hfound)
      obtain rfl := Except.ok.inj (hopen.symm.trans hopened)
      obtain ⟨hnew, hreturns⟩ := hreopens KeyPair.readable_small
      obtain ⟨r₁, d₂, hback⟩ :=
        Runs.ends (rotate "account" "new" "old") (keeping "account" blob)
      have hreturned := hreturns _ _ _ (lookup_keeping _ _) hback
      cases r₁ with
      | error e => exact absurd hreturned (not_shortage_keeping _ _)
      | ok back =>
          exact ⟨wrapped, blob, back, d', d₂, hrun, hnew, hback, hreturned⟩

end Custody

end DidVault
