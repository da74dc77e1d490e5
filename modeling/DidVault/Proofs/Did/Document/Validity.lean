import DidVault.Did.Document.Validation

/-!
# Valid documents

Validation goes through a document in order and stops at the first fault.  It
finds none exactly in the documents whose methods are regular, publish no key
twice, and have every reference to them (`Document.validate_iff`).
-/

namespace DidVault

/-- A method with an id of its own kind and a key or one condition. -/
structure VerificationMethod.Regular (m : VerificationMethod) : Prop where
  named : Text.beginsWith Names.keyStart m.id = true
  single : ¬ (m.conditionAnd.isSome = true ∧ m.conditionOr.isSome = true)
  present : m.materialHash?.isSome = true ∨ m.policy?.isSome = true

/-- What is wrong with a method that stands behind keys of the given hashes. -/
inductive VerificationMethod.AtFault (hashes : List String)
    (m : VerificationMethod) : DidError → Prop where
  | foreign (h : ¬ Text.beginsWith Names.keyStart m.id = true) :
      AtFault hashes m (.document (.foreignMethod m.id))
  | both (h : m.conditionAnd.isSome = true ∧ m.conditionOr.isSome = true) :
      AtFault hashes m (.document (.bothConditions m.id))
  | bare (h : ¬ (m.materialHash?.isSome = true ∨ m.policy?.isSome = true)) :
      AtFault hashes m (.missingKeyMaterial m.id)
  | double {hash : String} (hhash : m.materialHash? = some hash)
    (hold : hash ∈ hashes) :
      AtFault hashes m (.duplicateKey hash)

/-- A method at fault is not regular, or its key is not new. -/
theorem VerificationMethod.AtFault.not_regular {hashes : List String}
    {m : VerificationMethod} {e : DidError} (h : m.AtFault hashes e) :
    ¬ (m.Regular ∧ ∀ hash ∈ m.materialHash?, hash ∉ hashes) := by
  rintro ⟨hregular, hnew⟩
  cases h with
  | foreign h => exact h hregular.named
  | both h => exact hregular.single h
  | bare h => exact h hregular.present
  | double hhash hold => exact hnew _ hhash hold

namespace Document

/-- An account's document whose methods are regular and published once, and to
which all references are references of methods. -/
structure Valid (d : Document) : Prop where
  subject : Text.beginsWith Names.spaceStart d.id = true
  nonempty : d.methods ≠ []
  regular : ∀ m ∈ d.methods, m.Regular
  distinct : (d.methods.filterMap VerificationMethod.materialHash?).Nodup
  refers : ∀ r, ∀ reference ∈ d.relationships.get r,
    reference ∈ d.methodReferences
  policies : ∀ m ∈ d.methods, ∀ policy ∈ m.policy?, ∀ r ∈ policy.references,
    r ∈ d.methodReferences

variable {d : Document} {m : VerificationMethod}
  {methods : List VerificationMethod}
variable {hashes : List String}

/-- A method has a policy unless both of its conditions are absent. -/
theorem policy?_isSome (m : VerificationMethod) :
    m.policy?.isSome = true ↔
      ¬ (m.conditionAnd.isNone && m.conditionOr.isNone) = true := by
  unfold VerificationMethod.policy?
  cases m.conditionAnd <;> cases m.conditionOr <;> simp

/-- One step of the check, whatever comes behind: the method is at fault, or it
is regular, its key is new, and the others are checked with it. -/
theorem validateMethods_step (hashes : List String) (m : VerificationMethod) :
    (∃ e, m.AtFault hashes e ∧ ∀ rest,
      validateMethods hashes (m :: rest) = .error e) ∨
      (m.Regular ∧ (∀ hash ∈ m.materialHash?, hash ∉ hashes) ∧
        ∀ rest, validateMethods hashes (m :: rest) =
          validateMethods (m.materialHash?.toList ++ hashes) rest) := by
  by_cases hnamed : Text.beginsWith Names.keyStart m.id = true
  · by_cases hboth : m.conditionAnd.isSome = true ∧ m.conditionOr.isSome = true
    · refine .inl ⟨_, .both hboth, fun rest => ?_⟩
      rw [validateMethods, if_neg (by simp [hnamed]), if_pos (by simp [hboth])]
    · cases hhash : m.materialHash? with
      | none =>
          have hchecked : ∀ rest, validateMethods hashes (m :: rest) =
              if m.conditionAnd.isNone && m.conditionOr.isNone then
                .error (.missingKeyMaterial m.id)
              else validateMethods hashes rest := by
            intro rest
            rw [validateMethods, hhash]
            exact (if_neg (by simp [hnamed])).trans
              (if_neg (by simpa using hboth))
          by_cases hpolicy : m.policy?.isSome = true
          · refine .inr ⟨⟨hnamed, hboth, .inr hpolicy⟩, nofun, fun rest => ?_⟩
            exact (hchecked rest).trans (if_neg ((policy?_isSome m).mp hpolicy))
          · refine .inl ⟨_, .bare (by simp [hhash, hpolicy]), fun rest => ?_⟩
            refine (hchecked rest).trans (if_pos ?_)
            exact Decidable.of_not_not (mt (policy?_isSome m).mpr hpolicy)
      | some hash =>
          have hchecked : ∀ rest, validateMethods hashes (m :: rest) =
              if hash ∈ hashes then .error (.duplicateKey hash)
              else validateMethods (hash :: hashes) rest := by
            intro rest
            rw [validateMethods, hhash]
            exact (if_neg (by simp [hnamed])).trans
              (if_neg (by simpa using hboth))
          by_cases hold : hash ∈ hashes
          · refine .inl ⟨_, .double hhash hold, fun rest => ?_⟩
            exact (hchecked rest).trans (if_pos hold)
          · refine .inr
              ⟨⟨hnamed, hboth, .inl (by rw [hhash]; rfl)⟩, ?_, fun rest => ?_⟩
            · intro other hother
              rw [← Option.some.inj hother]
              exact hold
            · exact (hchecked rest).trans (if_neg hold)
  · refine .inl ⟨_, .foreign hnamed, fun rest => ?_⟩
    rw [validateMethods, if_pos (by simp [hnamed])]

/-- The check goes on behind a method that is regular and has a new key, and
only there. -/
theorem validateMethods_cons :
    validateMethods hashes (m :: methods) = .ok () ↔
      m.Regular ∧ (∀ hash ∈ m.materialHash?, hash ∉ hashes) ∧
        validateMethods (m.materialHash?.toList ++ hashes) methods =
          .ok () := by
  rcases validateMethods_step hashes m with ⟨e, hfault, hrefused⟩
    | ⟨hregular, hnew, hpassed⟩
  · rw [hrefused]
    exact ⟨nofun, fun h => absurd ⟨h.1, h.2.1⟩ hfault.not_regular⟩
  · rw [hpassed]
    exact ⟨fun h => ⟨hregular, hnew, h⟩, fun h => h.2.2⟩

/-- The methods pass if each is regular and no two, nor an earlier one, share a
hash. -/
theorem validateMethods_iff :
    validateMethods hashes methods = .ok () ↔
      (∀ m ∈ methods, m.Regular) ∧
        (methods.filterMap VerificationMethod.materialHash?).Nodup ∧
        ∀ hash ∈ methods.filterMap VerificationMethod.materialHash?,
          hash ∉ hashes := by
  induction methods generalizing hashes with
  | nil => simp [validateMethods]
  | cons m rest ih =>
      rw [validateMethods_cons, ih, List.forall_mem_cons, List.filterMap_cons]
      cases m.materialHash? with
      | none => simp [and_assoc]
      | some hash =>
          dsimp only
          rw [List.nodup_cons, List.forall_mem_cons]
          simp only [Option.mem_some_iff, forall_eq', Option.toList_some,
            List.cons_append, List.nil_append, List.mem_cons, not_or]
          constructor
          · rintro ⟨hm, hnew, hrest, hnodup, hfresh⟩
            exact ⟨⟨hm, hrest⟩, ⟨fun h => (hfresh hash h).1 rfl, hnodup⟩, hnew,
              fun h hmem => (hfresh h hmem).2⟩
          · rintro ⟨⟨hm, hrest⟩, ⟨hself, hnodup⟩, hnew, hfresh⟩
            refine ⟨hm, hnew, hrest, hnodup, fun h hmem => ⟨?_, hfresh h hmem⟩⟩
            rintro rfl
            exact hself hmem

/-- No reference dangles if every relationship names methods that are
present. -/
theorem danglingReference?_eq_none :
    d.danglingReference? = none ↔
      ∀ r, ∀ reference ∈ d.relationships.get r,
        reference ∈ d.methodReferences := by
  have hall (r : Relationship) : r ∈ Relationship.all := by cases r <;> decide
  rw [danglingReference?, List.findSome?_eq_none_iff]
  simp only [Relationships.named, List.forall_mem_map, Option.map_eq_none_iff,
    List.find?_eq_none, Bool.not_eq_true', Bool.not_eq_false,
    List.contains_iff_mem]
  exact ⟨fun h r => h r (hall r), fun h r _ => h r⟩

/-- No policy dangles if every policy names methods that are present. -/
theorem danglingPolicy?_eq_none :
    d.danglingPolicy? = none ↔ ∀ m ∈ d.methods, ∀ policy ∈ m.policy?,
      ∀ r ∈ policy.references, r ∈ d.methodReferences := by
  rw [danglingPolicy?, List.findSome?_eq_none_iff]
  refine forall₂_congr fun m _ => ?_
  cases m.policy? with
  | none => simp
  | some policy => simp [List.findSome?_eq_none_iff]

/-- A document passes validation exactly if it is valid. -/
theorem validate_iff : d.validate = .ok () ↔ d.Valid := by
  have hparts : d.validate = .ok () ↔
      Text.beginsWith Names.spaceStart d.id = true ∧
      d.methods.isEmpty = false ∧ validateMethods [] d.methods = .ok () ∧
      d.danglingReference? = none ∧ d.danglingPolicy? = none := by
    unfold validate
    cases Text.beginsWith Names.spaceStart d.id <;> cases d.methods.isEmpty <;>
      cases validateMethods [] d.methods <;> cases d.danglingReference? <;>
      cases d.danglingPolicy? <;>
      simp [bind, Except.bind, throw, throwThe, MonadExceptOf.throw, pure,
        Except.pure]
  rw [hparts, validateMethods_iff, danglingReference?_eq_none,
    danglingPolicy?_eq_none, List.isEmpty_eq_false_iff]
  constructor
  · rintro ⟨hsubject, hnonempty, ⟨hregular, hdistinct, -⟩, hrefers, hpolicies⟩
    exact ⟨hsubject, hnonempty, hregular, hdistinct, hrefers, hpolicies⟩
  · intro h
    exact ⟨h.subject, h.nonempty,
      ⟨h.regular, h.distinct, fun _ _ => List.not_mem_nil⟩, h.refers,
      h.policies⟩

end Document

end DidVault
