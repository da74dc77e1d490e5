import DidVault.Proofs.Did.HandedIn
import DidVault.Proofs.Did.Standing
import Mathlib.Data.List.Forall2
import Mathlib.Data.List.Nodup

/-!
# When keys are published

A key is published if no method has it (`Issuing.publish_ok_iff`), and a key
that was handed in if it is in order, too.  So when a step of issuing succeeds
with all that comes behind it is a condition on its key and on what comes behind
it, from the identifier with that key on (`Issuing.succeeds_addBinder_then` and
others).  The last step, composing the policy, only needs random bytes
(`Issuing.succeeds_composeRecovery_then`).

No method has a key exactly if no key that the methods publish has its hash
(`Identifier.lacks_iff_of_published`).
-/

namespace DidVault

open Identifier

/-- No method has the key. -/
def Identifier.Lacks (i : Identifier) (pem : String) : Prop :=
  ∀ m ∈ i.methods, m.materialHash? ≠ some (Address.keyHash (Utf8.encode pem))

/-- The hashes by which keys are compared. -/
def keyHashes (published : List (Credential × String)) : List String :=
  published.map fun key => Address.keyHash (Utf8.encode key.2)

/-- The hashes stay distinct if the new key's hash is not among them. -/
theorem nodup_keyHashes_concat (published : List (Credential × String))
    (key : Credential × String) :
    (keyHashes (published ++ [key])).Nodup ↔
      Address.keyHash (Utf8.encode key.2) ∉ keyHashes published ∧
      (keyHashes published).Nodup := by
  rw [keyHashes, List.map_append, List.map_singleton, ← List.concat_eq_append,
    List.nodup_concat]
  rfl

namespace Identifier

variable {i : Identifier} {pem : String}

/-- A PEM is lacking if no method has material of its hash. -/
theorem lacks_iff :
    i.Lacks pem ↔
      i.methods.any
        (·.materialHash? == some (Address.keyHash (Utf8.encode pem))) =
          false := by
  simp [Lacks, List.any_eq_false]

/-- Where the methods publish known keys, a PEM is lacking if its hash is none
of theirs. -/
theorem lacks_iff_of_published {published : List (Credential × String)}
    (hpublished : List.Forall₂ (fun m key => m.Publishes key.1 key.2) i.methods
      published) :
    i.Lacks pem ↔ Address.keyHash (Utf8.encode pem) ∉ keyHashes published := by
  unfold Lacks keyHashes
  generalize i.methods = methods at hpublished
  induction hpublished with
  | nil => simp
  | @cons m key methods published hm _ ih =>
      rw [List.forall_mem_cons, ih, hm.hash, List.map_cons, List.mem_cons,
        not_or, ne_eq, Option.some.injEq,
        @eq_comm _ (Address.keyHash (Utf8.encode key.2))]

/-- The node of a policy has no key. -/
theorem lacks_installPolicy (policy : Policy) (seed : Bytes)
    (hlacks : i.Lacks pem) :
    (i.installPolicy policy seed).Lacks pem := by
  intro m hm
  rw [methods_installPolicy] at hm
  rcases List.mem_append.mp hm with hm | hm
  · exact hlacks m (List.mem_filter.mp hm).1
  · rw [List.mem_singleton.mp hm]
    cases policy <;> exact nofun

end Identifier

namespace Issuing

variable {β : Type} {i : Identifier} {d : Desk} {now : Timestamp}
  {account password : String}
variable {kind : Credential} {keyType : KeyType} {pem query : String}
  {index : Option Nat}
variable {issued : Issued} {s' : Identifier × Desk} {key : BinderKey}
  {keys : List BinderKey}
variable {rest : IssueM β}

/-- Publishing succeeds just when the PEM is lacking, and appends its method. -/
theorem publish_ok_iff :
    Runs (publish kind keyType pem query index) (i, d) (.ok issued) s' ↔
      i.Lacks pem ∧ issued = ⟨methodId pem query kind.fragment, query⟩ ∧
        s' = (i.published kind keyType pem query index, d) := by
  rw [lacks_iff]
  constructor
  · intro hrun
    rcases publish_cases hrun with ⟨-, hr, -⟩ | ⟨hfresh, hr, hs⟩
    · cases hr
    · exact ⟨hfresh, Except.ok.inj hr, hs⟩
  · rintro ⟨hfresh, rfl, rfl⟩
    exact publish_of_fresh hfresh

/-- What begins with publishing succeeds if the PEM is lacking and the rest
succeeds after it. -/
theorem succeeds_publish_then :
    Succeeds (publish kind keyType pem query index >>= fun _ => rest) (i, d) ↔
      i.Lacks pem ∧
      Succeeds rest (i.published kind keyType pem query index, d) := by
  rw [succeeds_bind]
  constructor
  · rintro ⟨issued, s₁, hpublish, hrest⟩
    obtain ⟨hfresh, -, rfl⟩ := publish_ok_iff.mp hpublish
    exact ⟨hfresh, hrest⟩
  · rintro ⟨hfresh, hrest⟩
    exact ⟨_, _, publish_ok_iff.mpr ⟨hfresh, rfl, rfl⟩, hrest⟩

/-- A key that was handed in must be in order besides. -/
theorem succeeds_publishExternal_then :
    Succeeds (publishExternal now kind key >>= fun _ => rest) (i, d) ↔
      key.InOrder ∧ i.Lacks key.publicKeyPem ∧
      Succeeds rest (withExternal now kind key i, d) := by
  rw [succeeds_bind]
  constructor
  · rintro ⟨issued, s₁, hpublish, hrest⟩
    obtain rfl := publishExternal_ok hpublish
    cases (outcome_of_publishExternal hpublish).1 with
    | published horder hfresh => exact ⟨horder, hfresh, hrest⟩
  · rintro ⟨horder, hfresh, hrest⟩
    obtain ⟨r, s₁, hpublish⟩ := Runs.ends (publishExternal now kind key) (i, d)
    cases r with
    | ok issued =>
        obtain rfl := publishExternal_ok hpublish
        exact ⟨issued, _, hpublish, hrest⟩
    | error e =>
        obtain ⟨houtcome, -⟩ := outcome_of_publishExternal hpublish
        generalize s₁.1 = i' at houtcome
        cases houtcome with
        | foreign hbound => cases hbound.symm.trans horder.bound
        | unreadable _ hrsa hpem => exact absurd (horder.readable hrsa) hpem
        | double _ hm hdouble => exact absurd hdouble (hfresh _ hm)

/-- The device's key must be found or made at the desk first. -/
theorem succeeds_addDevice_then :
    Succeeds (addDevice now account >>= fun _ => rest) (i, d) ↔
      ∃ own d₁, Runs (Custody.spaceKey account) d (.ok own) d₁ ∧
      i.Lacks own.publicPem ∧
        Succeeds rest
          (i.published .device .rsa own.publicPem (baseQuery now .device) none,
            d₁) := by
  simp only [addDevice, bind_assoc, IssueM.succeeds_atDesk_bind,
    succeeds_publish_then]

/-- The binder's key must be among the keys that were handed in. -/
theorem succeeds_addBinder_then :
    Succeeds (addBinder now keys >>= fun _ => rest) (i, d) ↔
      ∃ binder, BinderKey.binder? keys = some binder ∧ binder.InOrder ∧
        i.Lacks binder.publicKeyPem ∧
        Succeeds rest (withExternal now .binder binder i, d) := by
  unfold addBinder
  cases BinderKey.binder? keys with
  | some binder =>
      rw [succeeds_publishExternal_then]
      constructor
      · intro h
        exact ⟨binder, rfl, h⟩
      · rintro ⟨key, hkey, h⟩
        cases hkey
        exact h
  | none =>
      constructor
      · intro h
        obtain ⟨_, _, hthrow, -⟩ := succeeds_bind.mp h
        cases (Runs.throw_iff.mp hthrow).1
      · rintro ⟨_, h, -⟩
        cases h

/-- The password key before it is removed, with its record. -/
theorem succeeds_addPasswordOnDevice_then (rest : PasswordKey → IssueM β) :
    Succeeds (addPasswordOnDevice now account password >>= fun answer =>
      rest answer.2) (i, d) ↔
        ∃ d₁, Runs (Custody.delete account) d (.ok ()) d₁ ∧
          ∃ key d₂, Runs (Custody.passwordKey account password) d₁
            (.ok key) d₂ ∧
            (i.removeHolding Credential.passwordOnDevice.queryPair).1.Lacks
              key.pair.publicPem ∧
            Succeeds (rest key)
              (withPasswordOnDevice now key.pair.publicPem i, d₂) := by
  simp only [addPasswordOnDevice, bind_assoc, pure_bind,
    IssueM.succeeds_identifier_bind, IssueM.succeeds_setIdentifier_bind,
    IssueM.succeeds_atDesk_bind, succeeds_publish_then]
  exact ⟨fun ⟨_, h⟩ => h, fun h => ⟨(), h⟩⟩

/-- The client's password key is published if it is there, and left out
otherwise. -/
theorem succeeds_addPasswordOnBinder_then :
    Succeeds (addPasswordOnBinder now keys >>= fun _ => rest) (i, d) ↔
      match BinderKey.passwordOnBinder? keys with
      | some key => key.InOrder ∧ i.Lacks key.publicKeyPem ∧
          Succeeds rest (withExternal now .passwordOnBinder key i, d)
      | none => Succeeds rest (i, d) := by
  unfold addPasswordOnBinder
  cases BinderKey.passwordOnBinder? keys with
  | some key =>
      dsimp only
      rw [bind_assoc]
      simp only [pure_bind]
      exact succeeds_publishExternal_then
  | none =>
      dsimp only
      rw [pure_bind]

/-- A policy over arranged keys is installed, unless there are not enough random
bytes for a seed. -/
theorem short_of_composeRecovery {a : Arrangement} {e : Error}
    (hmethods : i.methods = a.keys)
    (hrun : Runs composeRecovery (i, d) (.error e) s') :
    d.entropy.length < seedLength ∧ e = .abandoned := by
  obtain ⟨policy, hpolicy⟩ := a.exists_composes hmethods
  rw [Composes] at hpolicy
  have hinstall := addRecovery_iff.mp (composeRecovery_iff.mp hrun)
  rw [hpolicy] at hinstall
  dsimp only at hinstall
  split at hinstall
  · next hshort => exact ⟨hshort, Except.error.inj hinstall.1⟩
  · cases hinstall.1

/-- Composing the policy of a new identifier needs the bytes of its seed and
nothing else. -/
theorem succeeds_composeRecovery_then {α : Type} {a : Arrangement} {answer : α}
    (hmethods : i.methods = a.keys) :
    Succeeds (composeRecovery >>= fun _ => pure answer) (i, d) ↔
      seedLength ≤ d.entropy.length := by
  rw [succeeds_bind]
  constructor
  · rintro ⟨id, s₁, hcompose, -⟩
    have hinstall := addRecovery_iff.mp (composeRecovery_iff.mp hcompose)
    split at hinstall
    · cases hinstall.1
    · split at hinstall
      · cases hinstall.1
      · next henough => exact Nat.le_of_not_lt henough
  · intro henough
    obtain ⟨r, s₁, hcompose⟩ := Runs.ends composeRecovery (i, d)
    cases r with
    | ok id => exact ⟨id, s₁, hcompose, succeeds_pure ..⟩
    | error e =>
        obtain ⟨hshort, -⟩ := short_of_composeRecovery hmethods hcompose
        exact absurd hshort (Nat.not_lt.mpr henough)

end Issuing

end DidVault
