import DidVault.Proofs.Did.Edits
import DidVault.Proofs.Did.Standing

/-!
# Identifiers from documents

A document says the DID of the identifier that it was taken from, but not
whether the fragment of it was given or is the default.  The identifier that is
made of the document has it written out (`Identifier.plain`).  No edit tells the
two apart (`Edit.blind_perform`), so they go on with the same answers and the
same documents.

A document that is accepted names the key that its methods select.  All of it is
kept, except for what its DID has besides that key and a fragment
(`Document.rebuilt`).
-/

namespace DidVault

open IssueM Issuing Identifier

/-- Edits done one after another, each with what came of it. -/
inductive Performed :
    Identifier × Desk → List ((e : Edit) × Except Error e.Answer) →
      Identifier × Desk → Prop where
  | none {s : Identifier × Desk} : Performed s [] s
  | next {s s₁ s' : Identifier × Desk} {e : Edit} {r : Except Error e.Answer}
      {log : List ((e : Edit) × Except Error e.Answer)}
      (hrun : Runs e.perform s r s₁) (hrest : Performed s₁ log s') :
        Performed s (⟨e, r⟩ :: log) s'

/-- The key that a DID is derived from: that of the first method of the device
that has one in PEM, or, if there is none, that of the first method that has
one. -/
inductive Selected (methods : List VerificationMethod) (pem : String) :
    Prop where
  | device {before behind : List VerificationMethod} {m : VerificationMethod}
      (hmethods : methods = before ++ m :: behind)
      (hbefore : ∀ b ∈ before, b.credential? = some .device →
        b.publicKeyPem = none)
      (hdevice : m.credential? = some .device)
      (hpem : m.publicKeyPem = some pem)
  | first {before behind : List VerificationMethod} {m : VerificationMethod}
      (hnone : ∀ b ∈ methods, b.credential? = some .device →
        b.publicKeyPem = none)
      (hmethods : methods = before ++ m :: behind)
      (hbefore : ∀ b ∈ before, b.publicKeyPem = none)
      (hpem : m.publicKeyPem = some pem)

/-- The operation has the same outcome on an identifier whose fragment is
written out, and ends with an identifier of the same kind. -/
abbrev Blind {α : Type} (op : IssueM α) : Prop :=
  Commutes (Prod.map Identifier.plain id) op

section Operations

variable {α β : Type} {now : Timestamp} {kind : Credential} {keyType : KeyType}
variable {pem query : String} {index : Option Nat}

/-- Blindness is kept by plain answers, by errors and by sequencing. -/
theorem closed_blind : Closed fun {α : Type} (op : IssueM α) => Blind op :=
  .commutes _

/-- What happens at the desk only does not look at the identifier. -/
theorem blind_atDesk (op : DeskM α) : Blind (atDesk op) := by
  rintro ⟨i, d⟩ r s' hrun
  obtain ⟨d', hop, rfl⟩ := atDesk_iff.mp hrun
  exact atDesk_iff.mpr ⟨d', hop, rfl⟩

/-- An operation that looks at the identifier first may go by what it sees of
it. -/
theorem blind_identifier {f : Identifier → IssueM β}
    (hf : ∀ i d r s', Runs (f i) (i, d) r s' →
      Runs (f i.plain) (i.plain, d) r (Prod.map Identifier.plain id s')) :
    Blind (identifier >>= f) := by
  rintro ⟨i, d⟩ r s' hrun
  exact identifier_bind.mpr (hf i d r s' (identifier_bind.mp hrun))

/-- Replacing the identifier goes on with the one whose fragment is written
out. -/
theorem blind_setIdentifier {i j k : Identifier} {d : Desk}
    {g : Unit → IssueM β} {r : Except Error β} {s' : Identifier × Desk}
    (hsame : j.plain = k) (hg : Blind (g ()))
    (hrun : Runs (setIdentifier j >>= g) (i, d) r s') :
    Runs (setIdentifier k >>= g) (i.plain, d) r
      (Prod.map Identifier.plain id s') := by
  rw [setIdentifier_bind] at hrun ⊢
  rw [← hsame]
  exact hg hrun

/-- Relating a reference several times commutes with the plain form of the
identifier. -/
theorem plain_relateAll (rs : List Relationship) (reference : String)
    (i : Identifier) :
    (rs.foldl (fun i r => i.relate r reference) i).plain =
      rs.foldl (fun i r => i.relate r reference) i.plain := by
  induction rs generalizing i with
  | nil => rfl
  | cons r rs ih => exact ih (i.relate r reference)

/-- Whether a key can be published does not depend on how the fragment was
given. -/
theorem addMethod_plain (i : Identifier) (keyType : KeyType)
    (pem query fragment : String) (index : Option Nat) :
    i.plain.addMethod keyType pem query fragment index =
      (i.addMethod keyType pem query fragment index).map
        (Prod.map Identifier.plain id) := by
  unfold addMethod
  show (if i.methods.any _ = true then _ else _) =
      Except.map _ (if _ then _ else _)
  split
  · rfl
  · rfl

/-- A method is added with what comes of that, or its key is published
already. -/
theorem blind_addMethod {fragment : String} {f : Identifier → Identifier}
    {answer : String → β} (hf : ∀ i, (f i).plain = f i.plain) :
    Blind (do
      match (← identifier).addMethod keyType pem query fragment index with
        | .error e => throw (.did e)
        | .ok (i, id) =>
          setIdentifier (f i)
          return answer id) := by
  refine blind_identifier fun i d r s' hrun => ?_
  rw [addMethod_plain]
  cases hadd : i.addMethod keyType pem query fragment index with
  | error e =>
      rw [hadd] at hrun
      obtain ⟨rfl, rfl⟩ := Runs.throw_iff.mp hrun
      exact Runs.throw_iff.mpr ⟨rfl, rfl⟩
  | ok added =>
      rw [hadd] at hrun
      exact blind_setIdentifier (hf added.1) (closed_blind.pure _) hrun

/-- Publishing a key does not look at how the fragment is written. -/
theorem blind_publish : Blind (publish kind keyType pem query index) :=
  blind_addMethod (plain_relateAll _ _)

/-- Publishing a key that was handed in does not look at how the fragment is
written. -/
theorem blind_publishExternal (key : BinderKey) :
    Blind (publishExternal now kind key) := by
  unfold publishExternal
  split
  · exact closed_blind.throw _
  · split
    · exact closed_blind.throw _
    · exact blind_publish

/-- Adding the device's key does not look at how the fragment is written. -/
theorem blind_addDevice (account : String) : Blind (addDevice now account) :=
  closed_blind.bind (blind_atDesk _) fun _ => blind_publish

/-- Adding the binder's key does not look at how the fragment is written. -/
theorem blind_addBinder (keys : List BinderKey) :
    Blind (addBinder now keys) := by
  unfold addBinder
  split
  · exact blind_publishExternal _
  · exact closed_blind.throw _

/-- Adding the client's password key does not look at how the fragment is
written. -/
theorem blind_addPasswordOnBinder (keys : List BinderKey) :
    Blind (addPasswordOnBinder now keys) := by
  unfold addPasswordOnBinder
  split
  · exact closed_blind.bind (blind_publishExternal _) fun _ =>
      closed_blind.pure _
  · exact closed_blind.pure _

/-- Neither what is removed nor where the new key goes depends on how the
fragment was given. -/
theorem blind_addPasswordOnDevice (account password : String) :
    Blind (addPasswordOnDevice now account password) := by
  refine blind_identifier fun i d r s' hrun => ?_
  refine blind_setIdentifier rfl ?_ hrun
  refine closed_blind.bind (blind_atDesk _) fun _ => ?_
  refine closed_blind.bind (blind_atDesk _) fun key => ?_
  exact closed_blind.bind blind_publish fun _ => closed_blind.pure _

/-- Adding a recovery policy does not look at how the fragment is written. -/
theorem blind_addRecovery (anchors others : List String) :
    Blind (addRecovery anchors others) := by
  rintro ⟨i, d⟩ r s' hrun
  have hpolicy : i.plain.recoveryPolicy anchors others =
      i.recoveryPolicy anchors others := rfl
  have hinstall := addRecovery_iff.mp hrun
  refine addRecovery_iff.mpr ?_
  rw [hpolicy]
  split at hinstall
  · obtain ⟨rfl, rfl⟩ := hinstall
    exact ⟨rfl, rfl⟩
  · split at hinstall
    · next hshort =>
        obtain ⟨rfl, rfl⟩ := hinstall
        exact (if_pos hshort).mpr ⟨rfl, rfl⟩
    · next henough =>
        obtain ⟨rfl, rfl⟩ := hinstall
        exact (if_neg henough).mpr ⟨rfl, rfl⟩

/-- Composing the policy of the references at hand does not look at how the
fragment is written. -/
theorem blind_composeRecovery : Blind Issuing.composeRecovery := by
  rintro ⟨i, d⟩ r s' hrun
  exact composeRecovery_iff.mpr
    (blind_addRecovery _ _ (composeRecovery_iff.mp hrun))

end Operations

/-- No edit tells whether the fragment was given. -/
theorem Edit.blind_perform (e : Edit) : Blind e.perform := by
  cases e with
  | addMethod keyType pem query fragment index =>
      exact blind_addMethod fun _ => rfl
  | relate r reference =>
      refine blind_identifier fun i d r₀ s' hrun => ?_
      obtain ⟨rfl, rfl⟩ := Runs.modify_iff.mp hrun
      exact Runs.modify_iff.mpr ⟨rfl, rfl⟩
  | removeHolding part =>
      refine blind_identifier fun i d r s' hrun => ?_
      exact blind_setIdentifier rfl (closed_blind.pure _) hrun
  | removeFragment fragment =>
      refine blind_identifier fun i d r s' hrun => ?_
      exact blind_setIdentifier rfl (closed_blind.pure _) hrun
  | addRecovery anchors others => exact blind_addRecovery anchors others
  | composeRecovery => exact blind_composeRecovery
  | addDevice now account => exact blind_addDevice account
  | addBinder now keys => exact blind_addBinder keys
  | addPasswordOnDevice now account password =>
      exact blind_addPasswordOnDevice account password
  | addPasswordOnBinder now keys => exact blind_addPasswordOnBinder keys

/-- Edits lead from an identifier and from the one of its document to the same
answers and to identifiers of the same kind. -/
theorem Performed.plain {s s' : Identifier × Desk}
    {log : List ((e : Edit) × Except Error e.Answer)} (h : Performed s log s') :
    Performed (Prod.map Identifier.plain id s) log
      (Prod.map Identifier.plain id s') := by
  induction h with
  | none => exact .none
  | next hrun _ ih => exact .next (Edit.blind_perform _ hrun) ih

namespace Identifier

variable {i : Identifier} {pem : String}

/-- The source of the id-string is the device's method, or else the first that
publishes a key. -/
theorem selected_of_sourcePem (hsource : i.sourcePem? = some pem) :
    Selected i.methods pem := by
  rw [sourcePem?_eq, founder?] at hsource
  cases hdevice : i.methods.find? fun m =>
      m.credential? == some .device && m.publicKeyPem.isSome with
  | some m =>
      rw [hdevice] at hsource
      obtain ⟨hm, before, behind, hmethods, hbefore⟩ :=
        List.find?_eq_some_iff_append.mp hdevice
      refine .device hmethods (fun b hb hkind => ?_)
        (beq_iff_eq.mp (Bool.and_eq_true_iff.mp hm).1) hsource
      simpa [hkind] using hbefore b hb
  | none =>
      rw [hdevice] at hsource
      obtain ⟨m, hfirst, hpem⟩ := Option.bind_eq_some_iff.mp hsource
      obtain ⟨-, before, behind, hmethods, hbefore⟩ :=
        List.find?_eq_some_iff_append.mp hfirst
      refine .first (fun b hb hkind => ?_) hmethods (fun b hb => ?_) hpem
      · simpa [hkind] using List.find?_eq_none.mp hdevice b hb
      · simpa using hbefore b hb

/-- The DID of an accepted document names the key that its methods select, since
it is not empty. -/
theorem sourcePem_of_ofDocument {d : Document} (hi : ofDocument d = .ok i) :
    ∃ pem, i.sourcePem? = some pem ∧
      i.url.id = Address.spaceId (Utf8.encode pem) := by
  obtain ⟨hparse, hderived, -⟩ := ofDocument_iff.mp hi
  rw [derivedId] at hderived
  cases hsource : i.sourcePem? with
  | some pem =>
      rw [hsource] at hderived
      exact ⟨pem, rfl, hderived.symm⟩
  | none =>
      rw [hsource] at hderived
      exact absurd hderived.symm (DidUrl.parse_iff.mp hparse).2.idGiven

/-- An accepted document has the DID of its identifier exactly if that has a
fragment and no parts besides. -/
theorem did_eq_iff {d : Document} (hi : ofDocument d = .ok i) :
    i.did = d.id ↔
      ∃ fragment, i.url =
        ⟨Names.spaceMethod, i.url.id, [], [], none, some fragment⟩ := by
  obtain ⟨hparse, hderived, -⟩ := ofDocument_iff.mp hi
  constructor
  · intro hsame
    obtain ⟨pem, -, hid⟩ := sourcePem_of_ofDocument hi
    rw [← hsame, did, hid] at hparse
    have hurl :=
      (Except.ok.inj ((parse_didOfKey pem i.fragment).symm.trans hparse)).symm
    exact ⟨i.fragment, hid ▸ hurl⟩
  · rintro ⟨fragment, hurl⟩
    rw [← (DidUrl.parse_iff.mp hparse).1, did, Identifier.fragment, hurl]
    simp [DidUrl.render, DidUrl.renderSuffix, Names.spaceStart, Names.reference,
      String.append_assoc]

end Identifier

/-- From the document of an identifier that has a key, an identifier is made
whose document and DID are the same, and whatever edits are done to both, their
answers and the documents at the end are the same again.  A document that is
accepted names the key that its methods select, and is the one of its identifier
up to its DID; that is the same if it has a fragment and no other parts. -/
theorem Document.rebuilt :
    (∀ edits i, Edited edits i →
      (∃ m ∈ i.methods, m.publicKeyPem.isSome = true) →
        ∃ j, ofDocument i.toDocument = .ok j ∧
          j.toDocument = i.toDocument ∧ j.did = i.did ∧
          ∀ d log i' d', Performed (i, d) log (i', d') →
            ∃ j', Performed (j, d) log (j', d') ∧
              j'.toDocument = i'.toDocument) ∧
      ∀ d i, ofDocument d = .ok i →
        DidUrl.parse d.id = .ok i.url ∧
        (∃ pem, Selected d.methods pem ∧
          i.url.id = Address.spaceId (Utf8.encode pem)) ∧
        i.toDocument = { d with id := i.did } ∧
        (i.did = d.id ↔
          ∃ fragment, i.url =
            ⟨Names.spaceMethod, i.url.id, [], [], none, some fragment⟩) := by
  constructor
  · intro edits i hedited hkey
    refine ⟨i.plain, ofDocument_toDocument hedited.sound hkey, rfl, rfl,
      fun d log i' d' h => ?_⟩
    exact ⟨i'.plain, h.plain, rfl⟩
  · intro d i hi
    obtain ⟨hparse, -, hcontext, hcontroller, hmethods, hrelationships⟩ :=
      ofDocument_iff.mp hi
    have hdocument : i.toDocument = { d with id := i.did } := by
      rw [toDocument, hcontext, hcontroller, hmethods, hrelationships]
    obtain ⟨pem, hsource, hid⟩ := sourcePem_of_ofDocument hi
    have hselected := selected_of_sourcePem hsource
    rw [hmethods] at hselected
    exact ⟨hparse, ⟨pem, hselected, hid⟩, hdocument, did_eq_iff hi⟩

/-- An identifier with one key is rebuilt from its document, and the key can be
removed from both. With a query in the place of the fragment the document is
accepted too, but its identifier has another DID. -/
theorem Document.rebuilt_of_key :
    ∃ i, Edited [.addMethod .rsa "pem" "" "key-0" none] i ∧
      ∃ j, ofDocument i.toDocument = .ok j ∧ j.toDocument = i.toDocument ∧
        (∃ d r i' d' j',
          Performed (i, d) [⟨.removeFragment "#key-0", r⟩] (i', d') ∧
          Performed (j, d) [⟨.removeFragment "#key-0", r⟩] (j', d') ∧
          j'.toDocument = i'.toDocument) ∧
        ∃ id k, ofDocument { i.toDocument with id } = .ok k ∧ k.did ≠ id := by
  let d := Desk.bare []
  let m : VerificationMethod :=
    .publishing (methodId "pem" "" "key-0") .rsa "#did0" "pem"
  let i : Identifier := Identifier.new.insertMethod m none
  have hadded :
      Runs (Edit.addMethod .rsa "pem" "" "key-0" none).run (.new, d)
        (.ok ()) (i, d) :=
    rfl
  have hedited := Edited.new.edit hadded
  obtain ⟨htaken, haccepted⟩ := Document.rebuilt
  obtain ⟨j, hj, hdocument, -, hgoesOn⟩ :=
    htaken _ i hedited ⟨m, List.mem_singleton_self m, rfl⟩
  have hremoved : Performed (i, d) [⟨.removeFragment "#key-0", _⟩] _ :=
    .next (Runs.total _ (i, d)) .none
  obtain ⟨j', hagain, hsame'⟩ := hgoesOn _ _ _ _ hremoved
  obtain ⟨-, ⟨pem, -, hid⟩, -⟩ := haccepted _ j hj
  let k : Identifier :=
    { j with url := ⟨Names.spaceMethod, j.url.id, [], [], some "q", none⟩ }
  have hk : ofDocument { i.toDocument with id := k.url.render } = .ok k := by
    obtain ⟨-, hderived, hrest⟩ := ofDocument_iff.mp hj
    refine ofDocument_iff.mpr ⟨DidUrl.parse_iff.mpr ⟨rfl, ?_⟩, hderived, hrest⟩
    have h := wellFormed_didOfKey pem ""
    rw [← hid] at h
    exact ⟨h.methodNamed, h.method, h.idGiven, h.idStart, h.id, h.params,
      h.path, by simp [k]⟩
  obtain ⟨-, -, -, hsame⟩ := haccepted _ k hk
  refine ⟨i, hedited, j, hj, hdocument,
    ⟨d, _, _, _, j', hremoved, hagain, hsame'⟩, _, k, hk, fun h => ?_⟩
  obtain ⟨fragment, hurl⟩ := hsame.mp h
  cases congrArg DidUrl.query hurl

end DidVault
