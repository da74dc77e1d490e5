import DidVault.Proofs.Registry.Creation

/-!
# What a creation issues

A document is complete (`Document.Complete`) if its methods are those of all the
keys that it is to publish, in their order, with a node behind them that asks
for an anchor and one more of them.  A creation issues a complete document
unless a further parameter in the id of the client's key spells the text by
which an older password key of the device is found (`BinderKey.Ambiguous`): then
the client's key is taken for such a one and removed again
(`Registry.complete_iff_of_create`).
-/

namespace DidVault

open Issuing

namespace Registry

/-- The keys that a document publishes, by their credentials. -/
def publishedKeys (own binder password : String) (keys : List BinderKey) :
    List (Credential × String) :=
  [(.device, own), (.binder, binder), (.passwordOnDevice, password)]
    ++ (BinderKey.passwordOnBinder? keys).toList.map fun key =>
      (.passwordOnBinder, key.publicKeyPem)

/-- How relationships and policies refer to published keys. -/
def referencesTo (keys : List (Credential × String)) : List String :=
  keys.map fun key => Names.reference key.1.fragment

/-- A set of references that has two of the given ones, one of them that of the
device or of the client. -/
def Quorum (references present : List String) : Prop :=
  ∃ a ∈ present, ∃ b ∈ present, a ∈ references ∧ b ∈ references ∧ a ≠ b ∧
    (a = Names.reference Credential.device.fragment ∨
      a = Names.reference Credential.binder.fragment)

end Registry

/-- The methods publish the keys, in their order, and one node behind them,
which alone is for invocations, holds the policy that asks for a quorum of
them. -/
structure Document.Complete (d : Document) (keys : List (Credential × String)) :
    Prop where
  methods : ∃ published node policy, d.methods = published ++ [node] ∧
    List.Forall₂ (fun m key => m.Publishes key.1 key.2) published keys ∧
    node.Holds policy ∧
    ∀ present, policy.satisfiedBy present = true ↔
      Registry.Quorum (Registry.referencesTo keys) present
  invocations : d.relationships.capabilityInvocation =
    [Names.reference Names.recoveryFragment]

namespace Identifier

variable {i : Identifier} {keys : List (Credential × String)}

/-- The references to methods of several kinds are those of the keys of these
kinds. -/
theorem referencesOf_eq
    (hpublished : List.Forall₂ (fun m key => m.Publishes key.1 key.2)
      i.methods keys)
    (kinds : List Credential) :
    i.referencesOf kinds =
      kinds.flatMap fun kind =>
        Registry.referencesTo (keys.filter (·.1 == kind)) := by
  have hkind : ∀ kind : Credential,
      (i.methodsOf kind).filterMap VerificationMethod.reference? =
        Registry.referencesTo (keys.filter (·.1 == kind)) := by
    intro kind
    unfold methodsOf
    generalize i.methods = methods at hpublished
    induction hpublished with
    | nil => rfl
    | @cons m key ms keys hm _ ih =>
        rw [List.filter_cons, List.filter_cons, hm.credential]
        by_cases h : key.1 = kind
        · have htrue : (some key.1 == some kind) = true := by simp [h]
          have htrue' : (key.1 == kind) = true := by simp [h]
          rw [htrue, htrue', if_pos rfl, if_pos rfl,
            List.filterMap_cons_some hm.reference, ih]
          rfl
        · have hfalse : (some key.1 == some kind) = false := by simp [h]
          have hfalse' : (key.1 == kind) = false := by simp [h]
          rw [hfalse, hfalse', if_neg Bool.false_ne_true,
            if_neg Bool.false_ne_true, ih]
  rw [referencesOf, List.filterMap_flatMap]
  exact congrArg (fun f => kinds.flatMap f) (funext hkind)

end Identifier

namespace Registry

open DeskM Identifier

variable {now : Timestamp} {own password : KeyPair} {binder : BinderKey}
  {keys : List BinderKey}

/-- A binder's key that is not ambiguous is kept among the issued keys. -/
theorem issuedKeys_of_not_ambiguous (own password : String)
    (keys : List BinderKey) (hclear : ¬ binder.Ambiguous) :
    issuedKeys own binder password keys =
      publishedKeys own binder.publicKeyPem password keys := by
  rw [issuedKeys, if_neg hclear]
  rfl

/-- A client's key that is ambiguous is lost, and no other is the binder's. -/
theorem not_binder_of_ambiguous {own password : String}
    (hambiguous : binder.Ambiguous) :
    ∀ key ∈ issuedKeys own binder password keys, key.1 ≠ .binder := by
  intro key hkey h
  rw [issuedKeys, if_pos hambiguous] at hkey
  rcases List.mem_append.mp hkey with hkey | hkey
  · simp only [List.cons_append, List.nil_append, List.mem_cons,
      List.not_mem_nil, or_false] at hkey
    rcases hkey with rfl | rfl <;> cases h
  · obtain ⟨external, -, rfl⟩ := List.mem_map.mp hkey
    cases h

/-- An anchor and another key of the document are a quorum of its keys. -/
theorem quorum_iff (own binder password : String) (keys : List BinderKey)
    (present : List String) :
    (∃ a ∈ [Credential.device, .binder].map (Names.reference ·.fragment),
      a ∈ present ∧
        ∃ k ∈ referencesTo (publishedKeys own binder password keys),
          k ≠ a ∧ k ∈ present) ↔
      Quorum (referencesTo (publishedKeys own binder password keys))
        present := by
  have hanchor : ∀ a,
      a ∈ [Credential.device, .binder].map (Names.reference ·.fragment) ↔
      a = Names.reference Credential.device.fragment ∨
        a = Names.reference Credential.binder.fragment := by
    intro a
    simp
  have hpublished : ∀ a,
      a ∈ [Credential.device, .binder].map (Names.reference ·.fragment) →
      a ∈ referencesTo (publishedKeys own binder password keys) := by
    intro a ha
    rcases (hanchor a).mp ha with rfl | rfl
    · exact List.mem_cons_self
    · exact List.mem_cons_of_mem _ List.mem_cons_self
  constructor
  · rintro ⟨a, ha, hpresent, b, hb, hne, hother⟩
    exact ⟨a, hpresent, b, hother, hpublished a ha, hb, hne.symm,
      (hanchor a).mp ha⟩
  · rintro ⟨a, hpresent, b, hother, -, hb, hne, ha⟩
    exact ⟨a, (hanchor a).mpr ha, hpresent, b, hb, hne.symm, hother⟩

/-- The anchors of a complete document are the keys of the device and of the
client. -/
theorem anchorReferences_eq {i : Identifier} {own client secret : String}
    (hpublished : List.Forall₂ (fun m key => m.Publishes key.1 key.2) i.methods
      (publishedKeys own client secret keys)) :
    i.anchorReferences =
      [Credential.device, .binder].map (Names.reference ·.fragment) ∧
      i.anchorReferences ++ i.coSignerReferences =
        referencesTo (publishedKeys own client secret keys) := by
  rw [anchorReferences, coSignerReferences, referencesOf_eq hpublished,
    referencesOf_eq hpublished, publishedKeys]
  cases BinderKey.passwordOnBinder? keys with
  | none => exact ⟨rfl, rfl⟩
  | some key => exact ⟨rfl, rfl⟩

/-- No credential has the fragment of the policy. -/
theorem filter_recovery {methods : List VerificationMethod}
    {published : List (Credential × String)}
    (hpublished : List.Forall₂ (fun m key => m.Publishes key.1 key.2) methods
      published) :
    methods.filter (fun m => !(m.fragment? == some Names.recoveryFragment)) =
      methods := by
  induction hpublished with
  | nil => rfl
  | @cons m key methods published hm _ ih =>
      have hother : (m.fragment? == some Names.recoveryFragment) = false := by
        rw [beq_eq_false_iff_ne]
        intro h
        have hreference :
            m.reference? = some (Names.reference Names.recoveryFragment) :=
          congrArg (Option.map Names.reference) h
        rw [hm.reference, Option.some.injEq] at hreference
        revert hreference
        cases key.1 <;> decide
      rw [List.filter_cons, hother, ih]
      rfl

/-- The methods have the credentials of the keys that they publish. -/
theorem map_credential? {methods : List VerificationMethod}
    {published : List (Credential × String)}
    (hpublished : List.Forall₂ (fun m key => m.Publishes key.1 key.2) methods
      published) :
    methods.map VerificationMethod.credential? = published.map fun key =>
      some key.1 := by
  induction hpublished with
  | nil => rfl
  | cons hm _ ih => rw [List.map_cons, List.map_cons, hm.credential, ih]

/-- The document that a creation makes of its credentials is complete unless the
client's key is taken for a password key of the device. -/
theorem complete_iff {policy : Policy} (seed : Bytes)
    (hpolicy : (credentials now own password binder keys).Composes policy) :
    (∃ secret, ((credentials now own password binder keys).installPolicy policy
        seed).toDocument.Complete
          (publishedKeys own.publicPem binder.publicKeyPem secret keys)) ↔
      ¬ binder.Ambiguous := by
  have hpublished := publishes_credentials now own password binder keys
  have hinvocations := invocations_credentials now own password binder keys
  generalize credentials now own password binder keys = i
    at hpolicy hpublished hinvocations ⊢
  have hcompose := recoveryPolicy_ok hpolicy
  have hmethods : (i.installPolicy policy seed).toDocument.methods =
      i.methods ++
        [.holding (policyId seed) (Names.reference i.fragment) policy] := by
    show (i.installPolicy policy seed).methods = _
    rw [methods_installPolicy, filter_recovery hpublished]
  have hnode :
      (VerificationMethod.holding (policyId seed) (Names.reference i.fragment)
        policy).Holds policy := by
    rw [Policy.compose_ok hcompose]
    exact holds_node ..
  constructor
  · rintro ⟨secret, ⟨published, node, policy', hsplit, hall, hholds, -⟩,
      -⟩ hambiguous
    -- the client's key is missing, so the credentials are not those of a
    -- complete document
    have hlists :=
      congrArg (List.map VerificationMethod.credential?)
        (hmethods.symm.trans hsplit)
    rw [List.map_append, List.map_append, List.map_singleton,
      List.map_singleton, hnode.credential, hholds.credential,
      List.append_left_inj, map_credential? hpublished,
      map_credential? hall] at hlists
    have hbinder : some Credential.binder ∈
        (publishedKeys own.publicPem binder.publicKeyPem secret keys).map
          fun key => some key.1 :=
      List.mem_cons_of_mem _ List.mem_cons_self
    rw [← hlists] at hbinder
    obtain ⟨key, hkey, h⟩ := List.mem_map.mp hbinder
    exact not_binder_of_ambiguous hambiguous key hkey (Option.some.inj h)
  · intro hclear
    rw [issuedKeys_of_not_ambiguous _ _ _ hclear] at hpublished
    obtain ⟨hanchors, hreferences⟩ := anchorReferences_eq hpublished
    refine ⟨password.publicPem,
      ⟨_, _, policy, hmethods, hpublished, hnode, fun present => ?_⟩, ?_⟩
    · rw [Policy.satisfiedBy_compose hcompose, hreferences, hanchors]
      exact quorum_iff ..
    · exact invocations_installPolicy policy seed hinvocations

/-- What a creation stores is read back. -/
theorem parse_installed {policy : Policy} (seed : Bytes)
    (hpolicy : (credentials now own password binder keys).Composes policy) :
    Document.parse
      ((credentials now own password binder keys).installPolicy policy
        seed).toDocument.canonicalBytes =
          .ok ((credentials now own password binder keys).installPolicy policy
            seed).toDocument := by
  have hshallow := shallow_credentials now own password binder keys
  generalize credentials now own password binder keys = i at hpolicy hshallow ⊢
  refine Document.parse_of_shallow fun m hm => ?_
  have hmem : m ∈ (i.installPolicy policy seed).methods := hm
  rw [methods_installPolicy] at hmem
  rcases List.mem_append.mp hmem with h | h
  · exact hshallow m (List.mem_filter.mp h).1
  · rw [List.mem_singleton.mp h, Policy.compose_ok (recoveryPolicy_ok hpolicy)]
    refine VerificationMethod.shallow_holding _ _ fun p hp => ?_
    obtain ⟨anchor, -, rfl⟩ := List.mem_map.mp hp
    exact Policy.depth_clause_le _ anchor

/-- Storing a document leaves the account's own key where it is. -/
theorem owns_of_store {account : String} {own : KeyPair} {i : Identifier}
    {wrapped : Bytes} {issued : IssuedDocument} {d d' : Desk}
    (howns : Custody.Owns d.view.lookup account own)
    (hrun : Runs (store account i wrapped) d (.ok issued) d') :
    Custody.Owns d'.view.lookup account own ∧
      issued.document = i.toDocument.canonicalBytes ∧
      d'.view.lookup (Slot.document (normalizeDid issued.did)).key =
        some issued.document := by
  have hstored := ((makes_store account i wrapped).ok hrun).lookup
  obtain ⟨-, hissued⟩ := store_ok hrun
  rw [hissued]
  dsimp only
  refine ⟨?_, rfl, ?_⟩
  · obtain ⟨pem, hlook, hpair⟩ := howns
    refine ⟨pem, ?_, hpair⟩
    rw [hstored, after_storeChanges_of_key (.inl rfl)]
    exact hlook
  · rw [hstored]
    exact after_storeChanges.1

/-- A creation stores the document of its credentials, next to the account's own
key. -/
theorem issued_of_createSteps {account secret : String}
    {issued : IssuedDocument} {d d' : Desk}
    (hrun : Runs (createSteps now account secret keys) d (.ok issued) d') :
    ∃ own password binder policy seed,
      Custody.Owns d'.view.lookup account own ∧
      BinderKey.binder? keys = some binder ∧
      (credentials now own password binder keys).Composes policy ∧
      issued.document =
        ((credentials now own password binder keys).installPolicy policy
          seed).toDocument.canonicalBytes ∧
      d'.view.lookup (Slot.document (normalizeDid issued.did)).key =
        some issued.document := by
  obtain ⟨own, key, binder, policy, d₁, d₂, d₃, hown, hdelete, hkey, hbinder,
      hpolicy, hstore⟩ :=
    createSteps_ok hrun
  have hkeys := (Custody.changed_of_replace hdelete hkey).lookup
  have howns : Custody.Owns d₃.view.lookup account own := by
    obtain ⟨pem, hlook, hpair⟩ := Custody.owns_of_spaceKey hown
    refine ⟨pem, ?_, hpair⟩
    rw [hkeys, Sight.after_slot, hlook]
    intro c hc
    rw [slot_of_passwordChanges hc]
    exact nofun
  generalize hd₄ :
    { d₃ with entropy := d₃.entropy.drop Identifier.seedLength } = d₄ at hstore
  have hview : d₄.view = d₃.view := by rw [← hd₄]
  rw [← hview] at howns
  obtain ⟨howns, hdocument, hstored⟩ := owns_of_store howns hstore
  exact ⟨own, key.pair, binder, policy, _, howns, hbinder, hpolicy,
    hdocument, hstored⟩

/-- A creation that succeeds stores a document that is read back.  It is
complete exactly if the id of the client's key is not ambiguous. -/
theorem complete_iff_of_create (now : Timestamp) (account secret : String)
    (keys : List BinderKey) {d d' : Desk} {issued : IssuedDocument}
    (hrun : Runs (create now account secret keys) d (.ok issued) d') :
    ∃ document own binder,
      d'.view.lookup (Slot.document (normalizeDid issued.did)).key =
        some issued.document ∧
      Document.parse issued.document = .ok document ∧
      Custody.Owns d'.view.lookup account own ∧
      BinderKey.binder? keys = some binder ∧
      ((∃ password, document.Complete
          (publishedKeys own.publicPem binder.publicKeyPem password keys)) ↔
        ¬ binder.Ambiguous) := by
  rw [create_eq] at hrun
  obtain ⟨d₀, d₁, hsteps, -, hafter⟩ := transactionally_ok hrun
  obtain ⟨own, password, binder, policy, seed, howns, hbinder, hpolicy,
      hdocument, hstored⟩ :=
    issued_of_createSteps hsteps
  rw [hafter, hdocument]
  rw [hdocument] at hstored
  exact ⟨_, own, binder, hstored, parse_installed seed hpolicy, howns, hbinder,
    complete_iff seed hpolicy⟩

end Registry

namespace Registry

/-- The same key makes a complete document if its id is plain, and an incomplete
one if a further parameter of its id spells a password key of the device. -/
theorem complete_of_plain_not_of_ambiguous :
    (∃ issued d', Runs (create ⟨0, 0⟩ "account" "secret" [.client ""]) .stocked
          (.ok issued) d' ∧
        ∃ document own password, Document.parse issued.document = .ok document ∧
          document.Complete
            (publishedKeys own "client" password [.client ""])) ∧
      ∃ issued d', Runs (create ⟨0, 0⟩ "account" "secret"
            [.client "?x=credentialType=passwordondevice"]) .stocked
              (.ok issued) d' ∧
        ∃ document own, Document.parse issued.document = .ok document ∧
          Custody.Owns d'.view.lookup "account" own ∧
          ¬ ∃ password,
            document.Complete
              (publishedKeys own.publicPem "client" password
                [.client "?x=credentialType=passwordondevice"]) := by
  constructor
  · obtain ⟨issued, d', hrun⟩ :
        Succeeds (create ⟨0, 0⟩ "account" "secret" [.client ""]) .stocked :=
      succeeds_create_stocked BinderKey.kind_client
    obtain ⟨document, own, binder, -, hread, -, hbinder, hcomplete⟩ :=
      complete_iff_of_create _ _ _ _ hrun
    obtain rfl := Option.some.inj
      ((BinderKey.binder?_singleton BinderKey.kind_client).1.symm.trans hbinder)
    have hclear : ¬ (BinderKey.client "").Ambiguous := by decide +kernel
    obtain ⟨password, hcomplete⟩ := hcomplete.mpr hclear
    exact ⟨issued, d', hrun, document, own.publicPem, password,
      hread, hcomplete⟩
  · have hkind :
        (BinderKey.client "?x=credentialType=passwordondevice").credential? ≠
          some .passwordOnBinder := by decide +kernel
    obtain ⟨issued, d', hrun⟩ : Succeeds (create ⟨0, 0⟩ "account" "secret"
        [.client "?x=credentialType=passwordondevice"]) .stocked :=
          succeeds_create_stocked hkind
    obtain ⟨document, own, binder, -, hread, howns, hbinder, hcomplete⟩ :=
      complete_iff_of_create _ _ _ _ hrun
    obtain rfl :=
      Option.some.inj ((BinderKey.binder?_singleton hkind).1.symm.trans hbinder)
    have hambiguous :
        (BinderKey.client "?x=credentialType=passwordondevice").Ambiguous := by
      decide +kernel
    refine ⟨issued, d', hrun, document, own, hread, howns, fun hdone => ?_⟩
    exact hcomplete.mp hdone hambiguous

end Registry

end DidVault
