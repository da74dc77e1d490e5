import DidVault.Proofs.Did.Document.Validity
import DidVault.Proofs.Did.Policy.Compose

/-!
# What validation decides

The conditions on a document are of two kinds: those on its frame
(`Document.Framed`), which is everything but the keys, and those on the keys of
its methods, which have to be there and to differ.  A document passes validation
exactly if it meets all of them (`Document.verdict`).

The methods are checked in their order, and the first one at fault ends the
check (`validateMethods_error`).  So if the frame is sound, a document is
refused for its keys, and the error says for which of the two conditions.
-/

namespace DidVault

/-- The reference stands in the policy, at any depth. -/
inductive Policy.Mentions (reference : String) : Policy → Prop where
  | key : Mentions reference (.key reference)
  | all {child : Policy} {children : List Policy}
      (hchild : child ∈ children) (h : Mentions reference child) :
        Mentions reference (.all children)
  | any {child : Policy} {children : List Policy}
      (hchild : child ∈ children) (h : Mentions reference child) :
        Mentions reference (.any children)

/-- The method has a key, in one of its forms, or a condition. -/
def VerificationMethod.Supplied (m : VerificationMethod) : Prop :=
  m.publicKeyPem.isSome ∨ m.publicKeyBase58.isSome ∨
    m.publicKeyMultibase.isSome ∨
    m.conditionAnd.isSome ∨ m.conditionOr.isSome

instance (m : VerificationMethod) : Decidable m.Supplied :=
  inferInstanceAs (Decidable (_ ∨ _ ∨ _ ∨ _ ∨ _))

namespace Document

/-- The reference is that of a method: its fragment behind a hash. -/
def Knows (d : Document) (reference : String) : Prop :=
  ∃ m ∈ d.methods, ∃ fragment, m.fragment? = some fragment ∧
    reference = Names.reference fragment

/-- What is asked of a document apart from the keys of its methods. -/
structure Framed (d : Document) : Prop where
  subject : Text.beginsWith Names.spaceStart d.id = true
  nonempty : d.methods ≠ []
  named : ∀ m ∈ d.methods, Text.beginsWith Names.keyStart m.id = true
  single : ∀ m ∈ d.methods,
    ¬ (m.conditionAnd.isSome = true ∧ m.conditionOr.isSome = true)
  related : ∀ r, ∀ reference ∈ d.relationships.get r, d.Knows reference
  mentioned : ∀ m ∈ d.methods, ∀ policy, m.policy? = some policy →
    ∀ reference, policy.Mentions reference → d.Knows reference

/-- Every method has a key or a condition. -/
def Supplied (d : Document) : Prop := ∀ m ∈ d.methods, m.Supplied

/-- No two keys of methods have the same hash. -/
def Distinct (d : Document) : Prop :=
  (d.methods.filterMap VerificationMethod.materialHash?).Nodup

instance (d : Document) : Decidable d.Supplied :=
  inferInstanceAs (Decidable (∀ m ∈ d.methods, m.Supplied))

instance (d : Document) : Decidable d.Distinct :=
  inferInstanceAs (Decidable (List.Nodup _))

end Document

/-! ## The conditions one by one -/

mutual

/-- A policy mentions each of its references. -/
theorem Policy.mentions_of_mem {r : String} (p : Policy)
    (hr : r ∈ p.references) : p.Mentions r := by
  match p with
  | .key s =>
      rw [references, List.mem_singleton] at hr
      rw [hr]
      exact .key
  | .all children =>
      obtain ⟨child, hchild, hmentions⟩ := exists_mentions_of_mem children hr
      exact .all hchild hmentions
  | .any children =>
      obtain ⟨child, hchild, hmentions⟩ := exists_mentions_of_mem children hr
      exact .any hchild hmentions

/-- One of several policies mentions a reference of theirs. -/
theorem Policy.exists_mentions_of_mem {r : String} (children : List Policy)
    (hr : r ∈ listReferences children) :
    ∃ child ∈ children, child.Mentions r := by
  match children with
  | [] => cases hr
  | child :: rest =>
      rw [listReferences, List.mem_append] at hr
      rcases hr with h | h
      · exact ⟨child, List.mem_cons_self, mentions_of_mem child h⟩
      · obtain ⟨other, hother, hmentions⟩ := exists_mentions_of_mem rest h
        exact ⟨other, List.mem_cons_of_mem _ hother, hmentions⟩

end

/-- The references of a policy are those that stand in it. -/
theorem Policy.mem_references_iff_mentions {r : String} {p : Policy} :
    r ∈ p.references ↔ p.Mentions r := by
  constructor
  · exact mentions_of_mem p
  · intro h
    induction h with
    | key => exact List.mem_singleton_self r
    | all hchild _ ih =>
        rw [references, mem_listReferences]
        exact ⟨_, hchild, ih⟩
    | any hchild _ ih =>
        rw [references, mem_listReferences]
        exact ⟨_, hchild, ih⟩

namespace VerificationMethod

/-- A method is supplied if it has material or a policy. -/
theorem supplied_iff (m : VerificationMethod) :
    m.Supplied ↔ m.materialHash?.isSome = true ∨ m.policy?.isSome = true := by
  unfold Supplied materialHash? material? policy?
  cases m.publicKeyPem <;> cases m.publicKeyBase58 <;>
    cases m.publicKeyMultibase <;>
    cases m.conditionAnd <;> cases m.conditionOr <;> simp

/-- A method is regular if it names a key, has one condition at most, and is
supplied. -/
theorem regular_iff (m : VerificationMethod) :
    m.Regular ↔ Text.beginsWith Names.keyStart m.id = true ∧
      ¬ (m.conditionAnd.isSome = true ∧ m.conditionOr.isSome = true) ∧
      m.Supplied := by
  rw [supplied_iff]
  exact ⟨fun h => ⟨h.named, h.single, h.present⟩, fun h => ⟨h.1, h.2.1, h.2.2⟩⟩

end VerificationMethod

namespace Document

variable {d : Document} {m : VerificationMethod}
  {methods : List VerificationMethod}
variable {hashes : List String} {e : DidError}

/-- A document knows the references of its methods. -/
theorem knows_iff {reference : String} :
    d.Knows reference ↔ reference ∈ d.methodReferences := by
  simp only [Knows, methodReferences, List.mem_filterMap,
    VerificationMethod.reference?, VerificationMethod.fragment?,
    KeyId.reference?, Option.map_eq_some_iff, eq_comm (a := reference)]

/-- A frame is sound if its parts are, and nothing is found that refers to no
method. -/
theorem framed_iff :
    d.Framed ↔ Text.beginsWith Names.spaceStart d.id = true ∧ d.methods ≠ [] ∧
      (∀ m ∈ d.methods, Text.beginsWith Names.keyStart m.id = true) ∧
      (∀ m ∈ d.methods,
        ¬ (m.conditionAnd.isSome = true ∧ m.conditionOr.isSome = true)) ∧
      d.danglingReference? = none ∧ d.danglingPolicy? = none := by
  rw [danglingReference?_eq_none, danglingPolicy?_eq_none]
  constructor
  · intro h
    refine ⟨h.subject, h.nonempty, h.named, h.single, ?_, ?_⟩
    · intro r reference hreference
      exact knows_iff.mp (h.related r reference hreference)
    · intro m hm policy hpolicy reference hmem
      have hmentions := Policy.mem_references_iff_mentions.mp hmem
      exact knows_iff.mp (h.mentioned m hm policy hpolicy reference hmentions)
  · rintro ⟨hsubject, hnonempty, hnamed, hsingle, hrelated, hmentioned⟩
    refine ⟨hsubject, hnonempty, hnamed, hsingle, ?_, ?_⟩
    · intro r reference hreference
      exact knows_iff.mpr (hrelated r reference hreference)
    · intro m hm policy hpolicy reference hmentions
      have hmem := Policy.mem_references_iff_mentions.mpr hmentions
      exact knows_iff.mpr (hmentioned m hm policy hpolicy reference hmem)

/-- Validity is a sound frame, and keys that are there and differ. -/
theorem valid_iff : d.Valid ↔ d.Framed ∧ d.Supplied ∧ d.Distinct := by
  rw [framed_iff, danglingReference?_eq_none, danglingPolicy?_eq_none]
  constructor
  · intro h
    refine ⟨⟨h.subject, h.nonempty, ?_, ?_, h.refers, h.policies⟩, ?_,
      h.distinct⟩
    · exact fun m hm => (h.regular m hm).named
    · exact fun m hm => (h.regular m hm).single
    · exact fun m hm => (m.supplied_iff).mpr (h.regular m hm).present
  · rintro ⟨⟨hsubject, hnonempty, hnamed, hsingle, hrefers, hpolicies⟩,
      hsupplied, hdistinct⟩
    refine ⟨hsubject, hnonempty, ?_, hdistinct, hrefers, hpolicies⟩
    intro m hm
    exact (m.regular_iff).mpr ⟨hnamed m hm, hsingle m hm, hsupplied m hm⟩

/-- A document with a sound frame is decided by the check of its methods. -/
theorem validate_of_framed (hframed : d.Framed) :
    d.validate = validateMethods [] d.methods := by
  obtain ⟨hsubject, hnonempty, -, -, hreferences, hpolicies⟩ :=
    framed_iff.mp hframed
  have hmethods : d.methods.isEmpty = false :=
    List.isEmpty_eq_false_iff.mpr hnonempty
  unfold validate
  rw [hsubject, hmethods, hreferences, hpolicies]
  cases validateMethods [] d.methods <;> rfl

/-! ## The first method at fault -/

/-- The check fails at the first method that is at fault; those before it
pass. -/
theorem validateMethods_error
    (herror : validateMethods hashes methods = .error e) :
    ∃ before m after, methods = before ++ m :: after ∧
      validateMethods hashes before = .ok () ∧
      m.AtFault ((before.filterMap VerificationMethod.materialHash?).reverse ++
        hashes) e := by
  induction methods generalizing hashes with
  | nil => cases herror
  | cons m rest ih =>
      rcases validateMethods_step hashes m with ⟨e', hatFault, hrefused⟩
        | ⟨-, -, hpassed⟩
      · obtain rfl : e' = e :=
          Except.error.inj ((hrefused rest).symm.trans herror)
        exact ⟨[], m, rest, rfl, rfl, hatFault⟩
      · obtain ⟨before, n, after, rfl, hbefore, hatFault⟩ :=
          ih ((hpassed rest).symm.trans herror)
        refine ⟨m :: before, n, after, rfl, (hpassed before).trans hbefore, ?_⟩
        cases hhash : m.materialHash? with
        | none =>
            rw [hhash] at hatFault
            rw [List.filterMap_cons_none hhash]
            exact hatFault
        | some hash =>
            rw [hhash] at hatFault
            rw [List.filterMap_cons_some hhash, List.reverse_cons,
              List.append_assoc]
            exact hatFault

/-- A document with a sound frame that is refused has a first method with a bad
key. -/
theorem refused_of_framed (hframed : d.Framed)
    (hbad : ¬ (d.Supplied ∧ d.Distinct)) :
    ∃ e before m after, d.validate = .error e ∧
      d.methods = before ++ m :: after ∧
      (∀ n ∈ before, n.Supplied) ∧
      ((¬ m.Supplied ∧ e = .missingKeyMaterial m.id) ∨
        ∃ hash, m.materialHash? = some hash ∧
          hash ∈ before.filterMap VerificationMethod.materialHash? ∧
          e = .duplicateKey hash) := by
  cases hverdict : d.validate with
  | ok u => exact absurd (valid_iff.mp (validate_iff.mp hverdict)).2 hbad
  | error e =>
      have herror := (validate_of_framed hframed).symm.trans hverdict
      obtain ⟨before, m, after, hmethods, hbefore, hatFault⟩ :=
        validateMethods_error herror
      have hm : m ∈ d.methods := by
        rw [hmethods]
        exact List.mem_append_right _ List.mem_cons_self
      refine ⟨e, before, m, after, rfl, hmethods, fun n hn => ?_, ?_⟩
      · exact ((n.regular_iff).mp ((validateMethods_iff.mp hbefore).1 n hn)).2.2
      · cases hatFault with
        | foreign h => exact absurd (hframed.named m hm) h
        | both h => exact absurd h (hframed.single m hm)
        | bare h => exact .inl ⟨mt (m.supplied_iff).mp h, rfl⟩
        | double hhash hold =>
            rw [List.append_nil, List.mem_reverse] at hold
            exact .inr ⟨_, hhash, hold, rfl⟩

/-- A document passes validation exactly if its frame is sound and its keys are
there and differ. If the frame is sound and only two keys are the same, a key
that is there twice is named, and if only a key is missing, the first method
without a key and without a condition is. -/
theorem verdict (d : Document) :
    (d.validate = .ok () ↔ d.Framed ∧ d.Supplied ∧ d.Distinct) ∧
      (d.Framed → d.Supplied → ¬ d.Distinct →
        ∃ before m after hash, d.methods = before ++ m :: after ∧
          m.materialHash? = some hash ∧
          hash ∈ before.filterMap VerificationMethod.materialHash? ∧
          d.validate = .error (.duplicateKey hash)) ∧
      (d.Framed → d.Distinct → ¬ d.Supplied →
        ∃ before m after, d.methods = before ++ m :: after ∧
          (∀ n ∈ before, n.Supplied) ∧ ¬ m.Supplied ∧
          d.validate = .error (.missingKeyMaterial m.id)) := by
  refine ⟨validate_iff.trans valid_iff, fun hframed hsupplied htwice => ?_,
    fun hframed hdistinct hmissing => ?_⟩
  · obtain ⟨e, before, m, after, hverdict, hmethods, -, hbad⟩ :=
      refused_of_framed hframed fun h => htwice h.2
    rcases hbad with ⟨hbare, -⟩ | ⟨hash, hhash, hold, rfl⟩
    · have hm : m ∈ d.methods := by
        rw [hmethods]
        exact List.mem_append_right _ List.mem_cons_self
      exact absurd (hsupplied m hm) hbare
    · exact ⟨before, m, after, hash, hmethods, hhash, hold, hverdict⟩
  · obtain ⟨e, before, m, after, hverdict, hmethods, hbefore, hbad⟩ :=
      refused_of_framed hframed fun h => hmissing h.1
    rcases hbad with ⟨hbare, rfl⟩ | ⟨hash, hhash, hold, -⟩
    · exact ⟨before, m, after, hmethods, hbefore, hbare, hverdict⟩
    · rw [Distinct, hmethods, List.filterMap_append,
        List.filterMap_cons_some hhash] at hdistinct
      exact absurd rfl
        ((List.nodup_append.mp hdistinct).2.2 hash hold hash List.mem_cons_self)

/-- A document of a key, a policy over it and the key of the last method, and
that last method. -/
def closedBy (last : VerificationMethod) : Document where
  context := []
  id := "did:aospace:"
  methods :=
    [.publishing "did:aospacekey:#key-0" .ed25519 "" "a",
     .holding "did:aospacekey:#multisig-0" ""
       (.all [.key "#key-0", .any [.key "#key-1"]]), last]
  relationships :=
    { authentication := ["#key-0"], capabilityInvocation := ["#multisig-0"] }

/-- With another key as the last method the document is valid, with the first
key once more it has this key twice, and with neither a key nor a condition
there the last method is named. -/
theorem verdict_of_three_documents :
    (closedBy (.publishing "did:aospacekey:#key-1" .ed25519 "" "b")).validate =
      .ok () ∧
      (∃ hash,
        (closedBy (.publishing "did:aospacekey:#key-1" .ed25519 ""
          "a")).validate = .error (.duplicateKey hash)) ∧
      (closedBy ⟨"did:aospacekey:#key-1", .ed25519, "", none, none, none, none,
        none⟩).validate =
          .error (.missingKeyMaterial "did:aospacekey:#key-1") := by
  refine ⟨?_, ?_, ?_⟩
  · exact (verdict _).1.mpr
      ⟨framed_iff.mpr (by decide), by decide, by decide +kernel⟩
  · obtain ⟨-, -, -, hash, -, -, -, hrefused⟩ :=
      (verdict (closedBy
        (.publishing "did:aospacekey:#key-1" .ed25519 "" "a"))).2.1
          (framed_iff.mpr (by decide)) (by decide) (by decide +kernel)
    exact ⟨hash, hrefused⟩
  · obtain ⟨before, m, after, hmethods, -, hbare, hrefused⟩ :=
      (verdict (closedBy
        ⟨"did:aospacekey:#key-1", .ed25519, "", none, none, none, none,
          none⟩)).2.2 (framed_iff.mpr (by decide)) (by decide +kernel)
            (by decide)
    have hm : m ∈ before ++ m :: after :=
      List.mem_append_right _ List.mem_cons_self
    rw [← hmethods] at hm
    simp only [closedBy, List.mem_cons, List.not_mem_nil, or_false] at hm
    rcases hm with rfl | rfl | rfl
    · exact absurd (by decide) hbare
    · exact absurd (by decide) hbare
    · exact hrefused

end Document

end DidVault
