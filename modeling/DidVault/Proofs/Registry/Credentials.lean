import DidVault.Proofs.Did.Identifier
import DidVault.Proofs.Registry.Changes
import Mathlib.Data.List.Forall2

/-!
# The credentials of a new document

A new document publishes the account's own key, the client's key, a new password
key and the client's password key, in this order
(`Registry.methods_credentials`).  Before the new password key is published, an
older one is looked for by a text in its id.  That text may be spelled by a
further parameter in the id of the client's key (`BinderKey.Ambiguous`): then
the client's key is taken for an older password key and removed again, so that
the new document is without it (`Registry.issuedKeys`).
-/

namespace DidVault

open Issuing

/-- A key that was handed in with a further parameter that spells a password key
of the device. -/
def BinderKey.Ambiguous (key : BinderKey) : Prop :=
  ∃ p ∈ forwarded key,
    Text.holds Credential.passwordOnDevice.queryPair (written p) = true

instance (key : BinderKey) : Decidable key.Ambiguous :=
  inferInstanceAs (Decidable (∃ p ∈ forwarded key, _))

namespace Registry

open Identifier

variable {now : Timestamp} {own password : KeyPair} {binder : BinderKey}
  {keys : List BinderKey}

/-- The method of a key that the account holds. -/
def ownMethod (now : Timestamp) (kind : Credential) (pem : String) :
    VerificationMethod :=
  issuedMethod now kind .rsa pem (Names.reference Names.defaultFragment) []

/-- The method of a key that was handed in. -/
def externalMethod (now : Timestamp) (kind : Credential) (key : BinderKey) :
    VerificationMethod :=
  issuedMethod now kind key.keyType key.publicKeyPem
    (Names.reference Names.defaultFragment) (forwarded key)

/-- An own method publishes its key under its credential. -/
theorem publishes_ownMethod (now : Timestamp) (kind : Credential)
    (pem : String) :
    (ownMethod now kind pem).Publishes kind pem :=
  publishes_issuedMethod now kind .rsa pem _ (fun _ h => nomatch h)

/-- A method for a key that was handed in publishes that key. -/
theorem publishes_externalMethod (now : Timestamp) (kind : Credential)
    (key : BinderKey) :
    (externalMethod now kind key).Publishes kind key.publicKeyPem :=
  publishes_issuedMethod now kind key.keyType key.publicKeyPem _
    hash_not_mem_forwarded

/-- Publishing under the base query appends an own method. -/
theorem methods_published_base (i : Identifier) (now : Timestamp)
    (kind : Credential) (pem : String)
    (hfragment : i.fragment = Names.defaultFragment) :
    (i.published kind .rsa pem (baseQuery now kind) none).methods =
      i.methods ++ [ownMethod now kind pem] := by
  rw [baseQuery_eq, methods_published, hfragment]
  rfl

/-- Publishing a key that was handed in appends its method. -/
theorem methods_withExternal (i : Identifier) (now : Timestamp)
    (kind : Credential) (key : BinderKey)
    (hfragment : i.fragment = Names.defaultFragment) :
    (withExternal now kind key i).methods =
      i.methods ++ [externalMethod now kind key] := by
  rw [withExternal, forwardedQuery_eq, methods_published, hfragment]
  rfl

/-- The method of the client's own key, unless it is taken for an older password
key. -/
def keptBinder (now : Timestamp) (binder : BinderKey) :
    List VerificationMethod :=
  if binder.Ambiguous then [] else [externalMethod now .binder binder]

/-- Before the password key is published, its older ones are looked for among
the keys of the device and of the client. -/
theorem filter_holds (now : Timestamp) (pem : String) (binder : BinderKey) :
    [ownMethod now .device pem, externalMethod now .binder binder].filter
      (fun m => !Text.holds Credential.passwordOnDevice.queryPair m.id) =
        ownMethod now .device pem :: keptBinder now binder := by
  have hdevice : Text.holds Credential.passwordOnDevice.queryPair
      (ownMethod now .device pem).id = false := by
    rw [Bool.eq_false_iff]
    intro h
    rcases (holds_issuedId now .device pem []).mp h with h | ⟨p, hp, -⟩
    · cases h
    · cases hp
  have hbinder : Text.holds Credential.passwordOnDevice.queryPair
      (externalMethod now .binder binder).id = true ↔ binder.Ambiguous := by
    refine (holds_issuedId now .binder binder.publicKeyPem
      (forwarded binder)).trans ?_
    simp [BinderKey.Ambiguous]
  rw [List.filter_cons, hdevice, keptBinder]
  by_cases h : binder.Ambiguous
  · rw [if_pos h, List.filter_cons, hbinder.mpr h]
    rfl
  · have hfalse := Bool.eq_false_iff.mpr (fun hholds => h (hbinder.mp hholds))
    rw [if_neg h, List.filter_cons, hfalse]
    rfl

/-- Publishing the password key keeps the fragment. -/
theorem fragment_withPasswordOnDevice (i : Identifier) (now : Timestamp)
    (pem : String) :
    (withPasswordOnDevice now pem i).fragment = i.fragment :=
  (fragment_published ..).trans (fragment_removeWhere ..)

/-- Behind the keys of the device and of the client the password key goes to the
end. -/
theorem methods_withPasswordOnDevice {i : Identifier} {pem : String}
    (password : String)
    (hmethods : i.methods =
      [ownMethod now .device pem, externalMethod now .binder binder])
    (hfragment : i.fragment = Names.defaultFragment) :
    (withPasswordOnDevice now password i).methods =
      (ownMethod now .device pem :: keptBinder now binder)
        ++ [ownMethod now .passwordOnDevice password] := by
  have hplace : i.positionOf .passwordOnDevice = none := by
    rw [positionOf, hmethods, List.findIdx?_eq_none_iff]
    intro m hm
    simp only [List.mem_cons, List.not_mem_nil, or_false] at hm
    rcases hm with rfl | rfl
    · rw [(publishes_ownMethod ..).credential]
      rfl
    · rw [(publishes_externalMethod ..).credential]
      rfl
  have hkept :
      (i.removeHolding Credential.passwordOnDevice.queryPair).1.fragment =
        Names.defaultFragment := (fragment_removeWhere ..).trans hfragment
  rw [withPasswordOnDevice, hplace, methods_published_base _ _ _ _ hkept,
    removeHolding, methods_removeWhere, hmethods, filter_holds]

/-- The required credentials are issued under the default fragment. -/
theorem fragment_requiredCredentials (now : Timestamp) (own password : KeyPair)
    (binder : BinderKey) :
    (requiredCredentials now own password binder).fragment =
      Names.defaultFragment := by
  rw [requiredCredentials, fragment_withPasswordOnDevice, withExternal,
    fragment_published, fragment_published]
  rfl

/-- The DID of a new document has the fragment that no other was given for. -/
theorem fragment_credentials (now : Timestamp) (own password : KeyPair)
    (binder : BinderKey) (keys : List BinderKey) :
    (credentials now own password binder keys).fragment =
      Names.defaultFragment := by
  rw [credentials]
  split
  · rw [withExternal, fragment_published]
    exact fragment_requiredCredentials ..
  · exact fragment_requiredCredentials ..

/-- The credentials that every new document has, in their order. -/
theorem methods_requiredCredentials (now : Timestamp) (own password : KeyPair)
    (binder : BinderKey) :
    (requiredCredentials now own password binder).methods =
      (ownMethod now .device own.publicPem :: keptBinder now binder)
        ++ [ownMethod now .passwordOnDevice password.publicPem] := by
  have hdevice : (Identifier.new.published .device .rsa own.publicPem
      (baseQuery now .device) none).methods =
        [ownMethod now .device own.publicPem] :=
    methods_published_base .new now .device own.publicPem rfl
  rw [requiredCredentials, methods_withPasswordOnDevice]
  · rw [methods_withExternal, hdevice]
    · rfl
    · exact fragment_published ..
  · rw [withExternal, fragment_published]
    exact fragment_published ..

/-- The credentials of a new document, in their order. -/
theorem methods_credentials (now : Timestamp) (own password : KeyPair)
    (binder : BinderKey) (keys : List BinderKey) :
    (credentials now own password binder keys).methods =
      (ownMethod now .device own.publicPem :: keptBinder now binder)
        ++ [ownMethod now .passwordOnDevice password.publicPem]
        ++ (BinderKey.passwordOnBinder? keys).toList.map
          (externalMethod now .passwordOnBinder) := by
  have hmethods := methods_requiredCredentials now own password binder
  have hfragment := fragment_requiredCredentials now own password binder
  unfold credentials
  cases BinderKey.passwordOnBinder? keys with
  | none => rw [Option.toList_none, List.map_nil, List.append_nil, hmethods]
  | some key =>
      rw [methods_withExternal _ now .passwordOnBinder key hfragment, hmethods]
      rfl

/-- The keys that a new document publishes. -/
def issuedKeys (own : String) (binder : BinderKey) (password : String)
    (keys : List BinderKey) :
    List (Credential × String) :=
  ((.device, own) :: if binder.Ambiguous then [] else
    [(.binder, binder.publicKeyPem)])
      ++ [(.passwordOnDevice, password)]
      ++ (BinderKey.passwordOnBinder? keys).toList.map fun key =>
        (.passwordOnBinder, key.publicKeyPem)

/-- The keys that are there before the password key is published. -/
def anchorKeys (own : String) (binder : BinderKey) :
    List (Credential × String) :=
  (.device, own) :: if binder.Ambiguous then [] else
    [(.binder, binder.publicKeyPem)]

/-- The keys to be issued are the anchors, the password key and the client's
password key, if there is one. -/
theorem issuedKeys_eq (own password : String) (binder : BinderKey)
    (keys : List BinderKey) :
    issuedKeys own binder password keys =
      anchorKeys own binder ++ [(.passwordOnDevice, password)]
        ++ (BinderKey.passwordOnBinder? keys).toList.map fun key =>
          (.passwordOnBinder, key.publicKeyPem) := rfl

/-- The device's method, and the client's if it is kept, publish the anchors. -/
theorem publishes_anchors (now : Timestamp) (own : String)
    (binder : BinderKey) :
    List.Forall₂ (fun m key => m.Publishes key.1 key.2)
      (ownMethod now .device own :: keptBinder now binder)
        (anchorKeys own binder) := by
  unfold keptBinder anchorKeys
  split
  · exact .cons (publishes_ownMethod ..) .nil
  · exact .cons (publishes_ownMethod ..)
      (.cons (publishes_externalMethod ..) .nil)

/-- The methods behind a new password key publish the required credentials. -/
theorem publishes_requiredCredentials (now : Timestamp) (own password : KeyPair)
    (binder : BinderKey) :
    List.Forall₂ (fun m key => m.Publishes key.1 key.2)
      (requiredCredentials now own password binder).methods
      (anchorKeys own.publicPem binder ++
        [(.passwordOnDevice, password.publicPem)]) := by
  rw [methods_requiredCredentials]
  exact List.rel_append (publishes_anchors ..)
    (.cons (publishes_ownMethod ..) .nil)

/-- The methods of a new identifier publish the keys to be issued, one by
one. -/
theorem publishes_credentials (now : Timestamp) (own password : KeyPair)
    (binder : BinderKey) (keys : List BinderKey) :
    List.Forall₂ (fun m key => m.Publishes key.1 key.2)
      (credentials now own password binder keys).methods
      (issuedKeys own.publicPem binder password.publicPem keys) := by
  have hrequired := publishes_requiredCredentials now own password binder
  rw [methods_requiredCredentials] at hrequired
  rw [methods_credentials, issuedKeys_eq]
  refine List.rel_append hrequired ?_
  cases BinderKey.passwordOnBinder? keys with
  | none => exact .nil
  | some key => exact .cons (publishes_externalMethod ..) .nil

/-- None of the issued methods has conditions, so all of them are shallow. -/
theorem shallow_credentials (now : Timestamp) (own password : KeyPair)
    (binder : BinderKey) (keys : List BinderKey) :
    ∀ m ∈ (credentials now own password binder keys).methods, m.Shallow := by
  intro m hm
  rw [methods_credentials, keptBinder] at hm
  have hissued : ∃ id keyType controller pem,
      m = VerificationMethod.publishing id keyType controller pem := by
    rcases List.mem_append.mp hm with hm | hm
    · rcases List.mem_append.mp hm with hm | hm
      · rcases List.mem_cons.mp hm with rfl | hm
        · exact ⟨_, _, _, _, rfl⟩
        · split at hm
          · cases hm
          · rw [List.mem_singleton.mp hm]
            exact ⟨_, _, _, _, rfl⟩
      · rw [List.mem_singleton.mp hm]
        exact ⟨_, _, _, _, rfl⟩
    · obtain ⟨key, -, rfl⟩ := List.mem_map.mp hm
      exact ⟨_, _, _, _, rfl⟩
  obtain ⟨id, keyType, controller, pem, rfl⟩ := hissued
  exact VerificationMethod.shallow_publishing ..

/-- A new identifier has no capability invocation before its policy is
composed. -/
theorem invocations_credentials (now : Timestamp) (own password : KeyPair)
    (binder : BinderKey) (keys : List BinderKey) :
    (credentials now own password binder
      keys).relationships.capabilityInvocation = [] := by
  have hrequired :
      (requiredCredentials now own password
        binder).relationships.capabilityInvocation = [] := by
    rw [requiredCredentials, withPasswordOnDevice, invocations_published,
      removeHolding]
    refine invocations_removeWhere _ _ ?_
    rw [withExternal, invocations_published, invocations_published]
    rfl
  unfold credentials
  cases BinderKey.passwordOnBinder? keys with
  | none => exact hrequired
  | some key =>
      show (withExternal now .passwordOnBinder key
          _).relationships.capabilityInvocation = []
      rw [withExternal, invocations_published, hrequired]

end Registry

end DidVault
