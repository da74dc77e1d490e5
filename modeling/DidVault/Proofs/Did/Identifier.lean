import DidVault.Proofs.Did.Document.Reading
import DidVault.Proofs.Did.KeyId
import DidVault.Proofs.Did.Policy.Compose
import DidVault.Proofs.Issuing

/-!
# Identifiers that credentials are issued on

What is issued is known from its method: the reference, the credential and the
key (`VerificationMethod.Publishes`).  Publishing puts one method into the list,
removing takes some out, and installing a policy replaces the node of the one
before; neither the fragment of the DID nor, but for the node, the invocations
change.

No method that is issued is nested deep (`VerificationMethod.Shallow`), and a
document of such methods is read back from what is stored of it.
-/

namespace DidVault

/-- A reference is a fragment behind a `#`, so it determines the fragment. -/
theorem Names.reference_injective : Function.Injective Names.reference := by
  intro first second h
  have hchars := congrArg String.toList h
  simp only [Names.reference, String.toList_append, List.append_cancel_left_eq]
    at hchars
  exact String.toList_inj.mp hchars

/-- A method is referred to by its fragment with a hash. -/
theorem VerificationMethod.reference?_iff {m : VerificationMethod}
    {fragment : String} :
    m.reference? = some (Names.reference fragment) ↔
      m.fragment? = some fragment :=
  (Option.map_injective Names.reference_injective).eq_iff' rfl

/-- A method that publishes a key as a credential, and nothing else. -/
structure VerificationMethod.Publishes (m : VerificationMethod)
    (kind : Credential) (pem : String) : Prop where
  reference : m.reference? = some (Names.reference kind.fragment)
  credential : m.credential? = some kind
  key : m.publicKeyPem = some pem
  unconditional : m.policy? = none

/-- A method that holds a policy under the fragment of recovery, and publishes
no key. -/
structure VerificationMethod.Holds (m : VerificationMethod) (policy : Policy) :
    Prop where
  reference : m.reference? = some (Names.reference Names.recoveryFragment)
  credential : m.credential? = none
  keyless : m.material? = none
  policy : m.policy? = some policy

/-- A method whose JSON is nested no deeper than the node of a recovery
policy. -/
def VerificationMethod.Shallow (m : VerificationMethod) : Prop :=
  m.toJson.depth ≤ 6

/-- A document of shallow methods nests at most eight levels deep. -/
theorem Document.depth_toJson_le {d : Document}
    (hmethods : ∀ m ∈ d.methods, m.Shallow) : d.toJson.depth ≤ 8 :=
  depth_toJson_le_iff.mpr hmethods

/-- A document of issued methods is read back from its canonical bytes. -/
theorem Document.parse_of_shallow {d : Document}
    (hmethods : ∀ m ∈ d.methods, m.Shallow) :
    Document.parse d.canonicalBytes = .ok d := by
  refine d.parse_canonicalBytes (Nat.le_trans (depth_toJson_le hmethods) ?_)
  decide

/-- A method that publishes a key has no conditions, so it is shallow. -/
theorem VerificationMethod.shallow_publishing (id : String) (keyType : KeyType)
    (controller pem : String) :
    (VerificationMethod.publishing id keyType controller pem).Shallow := by
  have hdepth :
      (VerificationMethod.publishing id keyType controller pem).toJson.depth =
        1 := rfl
  rw [Shallow, hdepth]
  omega

/-- A node is shallow if its children nest at most four levels deep. -/
theorem VerificationMethod.shallow_holding {children : List Policy}
    (id controller : String) (hchildren : ∀ p ∈ children, p.toJson.depth ≤ 4) :
    (VerificationMethod.holding id controller (.any children)).Shallow := by
  have hitems := Policy.itemsDepth_listToJson_le hchildren
  have hdepth :
      (VerificationMethod.holding id controller (.any children)).toJson.depth =
        max 0 (max 0
          (max 0 (max (Json.itemsDepth (Policy.listToJson children) + 1) 0))) +
            1 := rfl
  rw [Shallow, hdepth]
  omega

namespace Issuing

variable {now : Timestamp} {kind : Credential} {pem controller : String}
variable {others : List (String × String)} {keyType : KeyType}

/-- The method of a key that is issued with further parameters. -/
def issuedMethod (now : Timestamp) (kind : Credential) (keyType : KeyType)
    (pem controller : String) (others : List (String × String)) :
    VerificationMethod :=
  .publishing (issuedId now kind pem others) keyType controller pem

/-- An issued method's id carries the credential's fragment, and its material is
the PEM. -/
theorem publishes_issuedMethod (now : Timestamp) (kind : Credential)
    (keyType : KeyType) (pem controller : String)
    (hothers : ∀ p ∈ others, '#' ∉ p.1.toList ∧ '#' ∉ p.2.toList) :
    (issuedMethod now kind keyType pem controller others).Publishes
      kind pem where
  reference :=
    VerificationMethod.reference?_iff.mpr
      (fragment?_issuedId now kind pem hothers)
  credential := credential?_issuedId now kind pem hothers
  key := rfl
  unconditional := rfl

end Issuing

namespace Identifier

open Issuing

variable {i : Identifier} {now : Timestamp} {kind : Credential}
  {keyType : KeyType}
variable {pem : String} {others : List (String × String)} {index : Option Nat}
variable {policy : Policy} {seed : Bytes}

/-- Publishing inserts a method and adds references to it. -/
theorem published_eq (i : Identifier) (now : Timestamp) (kind : Credential)
    (keyType : KeyType) (pem : String) (others : List (String × String))
    (index : Option Nat) :
    i.published kind keyType pem (queryWith now kind others) index =
      { i.insertMethod
        (issuedMethod now kind keyType pem (Names.reference i.fragment) others)
          index with
        relationships := kind.relationships.foldl
          (fun lists r => lists.add r (Names.reference kind.fragment))
            i.relationships } := by
  cases kind <;> rfl

/-- Publishing appends the issued method and leaves the others as they are. -/
theorem methods_published (i : Identifier) (now : Timestamp) (kind : Credential)
    (keyType : KeyType) (pem : String) (others : List (String × String)) :
    (i.published kind keyType pem (queryWith now kind others) none).methods =
      i.methods ++
        [issuedMethod now kind keyType pem (Names.reference i.fragment)
          others] := by
  rw [published_eq]
  rfl

/-- Publishing keeps the identifier's own fragment. -/
theorem fragment_published (i : Identifier) (kind : Credential)
    (keyType : KeyType) (pem query : String) (index : Option Nat) :
    (i.published kind keyType pem query index).fragment = i.fragment := by
  cases kind <;> rfl

/-- Adding a reference to another relationship leaves the capability invocations
alone. -/
theorem invocations_add (lists : Relationships) {r : Relationship}
    (reference : String) (hr : r ≠ .capabilityInvocation) :
    (lists.add r reference).capabilityInvocation =
      lists.capabilityInvocation := by
  unfold Relationships.add
  split
  · rfl
  · cases r with
    | capabilityInvocation => exact absurd rfl hr
    | _ => rfl

/-- No credential is published for invocations. -/
theorem invocations_published (i : Identifier) (kind : Credential)
    (keyType : KeyType) (pem query : String) (index : Option Nat) :
    (i.published kind keyType pem query
      index).relationships.capabilityInvocation =
        i.relationships.capabilityInvocation := by
  have hadd : ∀ (lists : Relationships) (reference : String),
      (lists.add .authentication reference).capabilityInvocation =
        lists.capabilityInvocation ∧
      (lists.add .assertionMethod reference).capabilityInvocation =
        lists.capabilityInvocation ∧
      (lists.add .capabilityDelegation reference).capabilityInvocation =
        lists.capabilityInvocation := by
    intro lists reference
    exact ⟨invocations_add _ _ nofun, invocations_add _ _ nofun,
      invocations_add _ _ nofun⟩
  cases kind with
  | device => exact (hadd _ _).2.2.trans ((hadd _ _).2.1.trans (hadd _ _).1)
  | binder => exact (hadd _ _).2.1.trans (hadd _ _).1
  | passwordOnDevice => exact (hadd _ _).1
  | passwordOnBinder => exact (hadd _ _).1

/-- Removing methods keeps those that do not match, in their order. -/
@[simp] theorem methods_removeWhere (i : Identifier)
    (gone : VerificationMethod → Bool) :
    (i.removeWhere gone).1.methods = i.methods.filter (!gone ·) := rfl

/-- Removing methods keeps the identifier's own fragment. -/
@[simp] theorem fragment_removeWhere (i : Identifier)
    (gone : VerificationMethod → Bool) :
    (i.removeWhere gone).1.fragment = i.fragment := rfl

/-- The node of a policy is removed by its fragment as it is, which has no hash
in front. -/
theorem removeRecovery_eq (i : Identifier) :
    i.removeFragment Names.recoveryFragment =
      i.removeWhere (·.fragment? == some Names.recoveryFragment) := by
  have hname : Text.withoutLeading '#' Names.recoveryFragment =
      Names.recoveryFragment := by
    decide
  rw [removeFragment, hname]

/-- There is still no capability invocation after methods were removed, if there
was none. -/
theorem invocations_removeWhere (i : Identifier)
    (gone : VerificationMethod → Bool)
    (hnone : i.relationships.capabilityInvocation = []) :
    (i.removeWhere gone).1.relationships.capabilityInvocation = [] := by
  show i.relationships.capabilityInvocation.filter _ = []
  rw [hnone]
  rfl

/-- A policy can be had over references all of which are found, with or without
a hash in front. -/
theorem recoveryPolicy_iff {anchors coSigners : List String} :
    i.recoveryPolicy anchors coSigners = .ok policy ↔
      Policy.compose anchors coSigners = .ok policy ∧
        ∀ s ∈ policy.references, ∃ m ∈ i.methods,
          m.fragment? = some (Text.withoutLeading '#' s) := by
  unfold recoveryPolicy
  cases hcompose : Policy.compose anchors coSigners with
  | error fault => exact ⟨nofun, fun h => nomatch h.1⟩
  | ok composed =>
      have hfound (s : String) : ¬ (i.method? s).isNone = true ↔
          ∃ m ∈ i.methods, m.fragment? = some (Text.withoutLeading '#' s) := by
        rw [Bool.not_eq_true, Option.isNone_eq_false_iff, method?,
          List.find?_isSome]
        simp only [beq_iff_eq]
      dsimp only
      split
      · next r hunknown =>
          refine ⟨nofun, ?_⟩
          rintro ⟨⟨⟩, hall⟩
          have hmem := hall r (List.mem_of_find?_eq_some hunknown)
          exact absurd (List.find?_some hunknown) ((hfound r).mpr hmem)
      · next hnone =>
          constructor
          · rintro ⟨⟩
            exact ⟨rfl, fun s hs =>
              (hfound s).mp (List.find?_eq_none.mp hnone s hs)⟩
          · rintro ⟨⟨⟩, -⟩
            rfl

/-- A recovery policy is composed of the references that were given. -/
theorem recoveryPolicy_ok {anchors coSigners : List String}
    (hpolicy : i.recoveryPolicy anchors coSigners = .ok policy) :
    Policy.compose anchors coSigners = .ok policy :=
  (recoveryPolicy_iff.mp hpolicy).1

/-- The node's id has the key hash of its seed and ends with the recovery
fragment. -/
theorem policyId_eq (seed : Bytes) :
    policyId seed =
      String.ofList (start seed ++ '#' :: Names.recoveryFragment.toList) := by
  rw [← String.toList_inj, String.toList_ofList]
  simp [policyId, start, Names.reference]

/-- The node of a policy is known by its fragment; it is nobody's credential. -/
theorem holds_node (children : List Policy) (seed : Bytes)
    (controller : String) :
    (VerificationMethod.holding (policyId seed) controller
      (.any children)).Holds (.any children) where
  reference := by
    have hfragment : KeyId.fragment? (policyId seed) =
        some Names.recoveryFragment := by
      rw [KeyId.fragment?, policyId_eq,
        Text.cut_append (not_mem_start seed '#' (by decide)),
        String.ofList_toList]
    exact VerificationMethod.reference?_iff.mpr hfragment
  credential := by
    have hquery : KeyId.query? (policyId seed) = none := by
      rw [KeyId.query?, policyId_eq,
        Text.cut_append (not_mem_start seed '#' (by decide)),
        Text.cut_of_not_mem (not_mem_start seed '?' (by decide))]
    have hparams : KeyId.queryParams (policyId seed) = [] := by
      rw [KeyId.queryParams, hquery]
    show KeyId.credential? (policyId seed) = none
    rw [KeyId.credential?, hparams]
    rfl
  keyless := rfl
  policy := rfl

/-- The node of a policy stands behind the other methods; one that was there
before is gone. -/
theorem methods_installPolicy (i : Identifier) (policy : Policy)
    (seed : Bytes) :
    (i.installPolicy policy seed).methods =
      i.methods.filter (fun m => !(m.fragment? == some Names.recoveryFragment))
        ++ [.holding (policyId seed) (Names.reference i.fragment) policy] := by
  show (i.removeFragment Names.recoveryFragment).1.methods ++ _ = _
  rw [removeRecovery_eq]
  rfl

/-- The node is the only method for invocations. -/
theorem invocations_installPolicy (policy : Policy) (seed : Bytes)
    (hnone : i.relationships.capabilityInvocation = []) :
    (i.installPolicy policy seed).relationships.capabilityInvocation =
      [Names.reference Names.recoveryFragment] := by
  have hremoved :
      (i.removeFragment
        Names.recoveryFragment).1.relationships.capabilityInvocation =
          [] := invocations_removeWhere i _ hnone
  show (Relationships.add _ _ _).capabilityInvocation = _
  unfold Relationships.add
  rw [if_neg]
  · show _ ++ _ = _
    show (i.removeFragment
        Names.recoveryFragment).1.relationships.capabilityInvocation ++ _ = _
    rw [hremoved]
    rfl
  · show ¬ _ ∈
        (i.removeFragment
          Names.recoveryFragment).1.relationships.capabilityInvocation
    rw [hremoved]
    exact List.not_mem_nil

end Identifier

end DidVault
