import DidVault.Proofs.Did.Sound

/-!
# Edited identifiers

An identifier is edited at a desk by operations of ten kinds (`Edit`), any of
which may fail.  What the steps keep that operations are made of
(`Identifier.Stable`) is kept by every edit, whatever its outcome (`Edit.kept`),
and so by every row of edits from a new identifier (`Edited`).  The exception is
a reference that is added by itself: it need not be one of a method.
-/

namespace DidVault

open IssueM Issuing Identifier

/-- An operation on an identifier, with its arguments. -/
inductive Edit where
  | addMethod (keyType : KeyType) (pem query fragment : String)
    (index : Option Nat)
  | relate (r : Relationship) (reference : String)
  | removeHolding (part : String)
  | removeFragment (fragment : String)
  | addRecovery (anchors others : List String)
  | composeRecovery
  | addDevice (now : Timestamp) (account : String)
  | addBinder (now : Timestamp) (keys : List BinderKey)
  | addPasswordOnDevice (now : Timestamp) (account password : String)
  | addPasswordOnBinder (now : Timestamp) (keys : List BinderKey)

/-- What an edit answers. -/
def Edit.Answer : Edit → Type
  | addMethod .. | addRecovery .. | composeRecovery => String
  | relate .. => Unit
  | removeHolding _ | removeFragment _ => Nat
  | addDevice .. | addBinder .. => Issued
  | addPasswordOnDevice .. => Issued × PasswordKey
  | addPasswordOnBinder .. => Option Issued

/-- Edits the identifier at the desk, and answers. -/
def Edit.perform : (e : Edit) → IssueM e.Answer
  | addMethod keyType pem query fragment index => do
    match (← identifier).addMethod keyType pem query fragment index with
    | .error e => throw (.did e)
    | .ok (i, id) =>
      setIdentifier i
      return id
  | relate r reference => do setIdentifier ((← identifier).relate r reference)
  | removeHolding part => do
    let (i, count) := (← identifier).removeHolding part
    setIdentifier i
    return count
  | removeFragment fragment => do
    let (i, count) := (← identifier).removeFragment fragment
    setIdentifier i
    return count
  | addRecovery anchors others => Issuing.addRecovery anchors others
  | composeRecovery => Issuing.composeRecovery
  | addDevice now account => Issuing.addDevice now account
  | addBinder now keys => Issuing.addBinder now keys
  | addPasswordOnDevice now account password =>
      Issuing.addPasswordOnDevice now account password
  | addPasswordOnBinder now keys => Issuing.addPasswordOnBinder now keys

/-- Edits the identifier at the desk; what the operation answers is dropped. -/
def Edit.run (e : Edit) : IssueM Unit :=
  (fun _ => ()) <$> e.perform

/-- The identifiers that edits lead to from a new one, each edit at any desk and
with any outcome. -/
inductive Edited : List Edit → Identifier → Prop where
  | new : Edited [] .new
  | edit {edits : List Edit} {e : Edit} {i i' : Identifier} {d d' : Desk}
      {r : Except Error Unit} (hedited : Edited edits i)
      (hrun : Runs e.run (i, d) r (i', d')) : Edited (edits ++ [e]) i'

/-- Whatever its outcome, the operation keeps what is true of the identifier. -/
def KeepsIdentifier {α : Type} (P : Identifier → Prop) (op : IssueM α) : Prop :=
  Keeps (fun s s' : Identifier × Desk => P s.1 → P s'.1) op

section Operations

variable {α β : Type} {P : Identifier → Prop} {i : Identifier} {d : Desk}
variable {s s' : Identifier × Desk} {now : Timestamp} {kind : Credential}
  {keyType : KeyType}
variable {pem query : String} {others : List (String × String)}
  {index : Option Nat}
variable {keys : List BinderKey}

/-- Keeping a property of the identifier is closed under plain answers, errors
and sequencing. -/
theorem closed_keepsIdentifier (P : Identifier → Prop) :
    Closed fun {α : Type} (op : IssueM α) => KeepsIdentifier P op :=
  .keeps (fun _ h => h) fun h₁ h₂ h => h₂ (h₁ h)

/-- What happens at the desk only keeps every property of the identifier. -/
theorem keepsIdentifier_atDesk (op : DeskM α) :
    KeepsIdentifier P (atDesk op) := by
  rintro ⟨i, d⟩ r s' hrun hi
  obtain ⟨d', -, rfl⟩ := atDesk_iff.mp hrun
  exact hi

/-- An operation that looks at the identifier first may go by what is true of
it. -/
theorem keepsIdentifier_identifier {f : Identifier → IssueM β}
    (hf : ∀ i d r s', P i → Runs (f i) (i, d) r s' → P s'.1) :
    KeepsIdentifier P (identifier >>= f) := by
  rintro ⟨i, d⟩ r s' hrun hi
  exact hf i d r s' hi (identifier_bind.mp hrun)

/-- Replacing the identifier and answering does nothing else. -/
theorem setIdentifier_answer_iff {a : β} {r : Except Error β} :
    Runs (setIdentifier i >>= fun _ => pure a) s r s' ↔
      r = .ok a ∧ s' = (i, s.2) := by
  rw [setIdentifier_bind]
  exact Runs.pure_iff

/-- Replacing the identifier keeps what is true of the new one. -/
theorem keepsIdentifier_edit {f : Identifier → Identifier × β}
    (hf : ∀ i, P i → P (f i).1) :
    KeepsIdentifier P (do
      let (i, answer) := f (← identifier)
      setIdentifier i
      return answer) := by
  refine keepsIdentifier_identifier fun i d r s' hi hrun => ?_
  obtain ⟨-, rfl⟩ := setIdentifier_answer_iff.mp hrun
  exact hf i hi

/-- A method is added or, if its key is published already, nothing happens. -/
theorem addMethod_cases (i : Identifier) (keyType : KeyType)
    (pem query fragment : String) (index : Option Nat) :
    (i.methods.any (·.materialHash? == some (Address.keyHash (Utf8.encode pem)))
      = true ∧
        i.addMethod keyType pem query fragment index =
          .error (.duplicateKey (Address.keyHash (Utf8.encode pem)))) ∨
      (i.methods.any
        (·.materialHash? == some (Address.keyHash (Utf8.encode pem))) = false ∧
        i.addMethod keyType pem query fragment index =
          .ok (i.insertMethod (.publishing (methodId pem query fragment) keyType
            (Names.reference i.fragment) pem) index,
            methodId pem query fragment)) := by
  cases hany : i.methods.any
      (·.materialHash? == some (Address.keyHash (Utf8.encode pem))) with
  | true => exact .inl ⟨rfl, if_pos hany⟩
  | false => exact .inr ⟨rfl, if_neg (Bool.eq_false_iff.mp hany)⟩

/-- Publishing fails only if a method has the key, and then nothing happens. -/
theorem publish_cases {r : Except Error Issued}
    (hrun : Runs (publish kind keyType pem query index) (i, d) r s') :
    (i.methods.any (·.materialHash? == some (Address.keyHash (Utf8.encode pem)))
      = true ∧
        r = .error (.did (.duplicateKey (Address.keyHash (Utf8.encode pem)))) ∧
        s' = (i, d)) ∨
      (i.methods.any
        (·.materialHash? == some (Address.keyHash (Utf8.encode pem))) = false ∧
        r = .ok ⟨methodId pem query kind.fragment, query⟩ ∧
        s' = (i.published kind keyType pem query index, d)) := by
  rcases addMethod_cases i keyType pem query kind.fragment index with
    ⟨hdouble, hadd⟩ | ⟨hfresh, -⟩
  · unfold publish at hrun
    rw [identifier_bind, hadd] at hrun
    exact .inl ⟨hdouble, Runs.throw_iff.mp hrun⟩
  · obtain ⟨hr, hs⟩ := Runs.unique hrun (publish_of_fresh hfresh)
    exact .inr ⟨hfresh, hr, hs⟩

/-- Publishing a key keeps a stable property. -/
theorem keepsIdentifier_publish (hstable : Stable P)
    (hothers : ∀ p ∈ others, '#' ∉ p.1.toList ∧ '#' ∉ p.2.toList) :
    KeepsIdentifier P
      (publish kind keyType pem (queryWith now kind others) index) := by
  rintro ⟨i, d⟩ r s' hrun hi
  rcases publish_cases hrun with ⟨-, -, rfl⟩ | ⟨hfresh, -, rfl⟩
  · exact hi
  · exact hstable.published hothers hi hfresh

/-- Publishing a key that was handed in keeps a stable property. -/
theorem keepsIdentifier_publishExternal (hstable : Stable P) (key : BinderKey) :
    KeepsIdentifier P (publishExternal now kind key) := by
  unfold publishExternal
  split
  · exact (closed_keepsIdentifier P).throw _
  · split
    · exact (closed_keepsIdentifier P).throw _
    · rw [forwardedQuery_eq]
      exact keepsIdentifier_publish hstable hash_not_mem_forwarded

/-- Adding the device's key keeps a stable property. -/
theorem keepsIdentifier_addDevice (hstable : Stable P) (account : String) :
    KeepsIdentifier P (addDevice now account) := by
  refine (closed_keepsIdentifier P).bind (keepsIdentifier_atDesk _) fun pair =>
    ?_
  rw [baseQuery_eq]
  exact keepsIdentifier_publish hstable fun _ h => nomatch h

/-- Adding the binder's key keeps a stable property. -/
theorem keepsIdentifier_addBinder (hstable : Stable P) (keys : List BinderKey) :
    KeepsIdentifier P (addBinder now keys) := by
  unfold addBinder
  split
  · exact keepsIdentifier_publishExternal hstable _
  · exact (closed_keepsIdentifier P).throw _

/-- Adding the client's password key keeps a stable property. -/
theorem keepsIdentifier_addPasswordOnBinder (hstable : Stable P)
    (keys : List BinderKey) :
    KeepsIdentifier P (addPasswordOnBinder now keys) := by
  unfold addPasswordOnBinder
  split
  · refine (closed_keepsIdentifier P).bind
      (keepsIdentifier_publishExternal hstable _) fun _ => ?_
    exact (closed_keepsIdentifier P).pure _
  · exact (closed_keepsIdentifier P).pure _

/-- The password key is removed first; what follows may fail, but that is kept
too. -/
theorem keepsIdentifier_addPasswordOnDevice (hstable : Stable P)
    (account password : String) :
    KeepsIdentifier P (addPasswordOnDevice now account password) := by
  have hclosed := closed_keepsIdentifier P
  refine keepsIdentifier_identifier fun i d r s' hi hrun => ?_
  rw [setIdentifier_bind] at hrun
  revert hrun
  have hbehind : ∀ {op : IssueM (Issued × PasswordKey)} {i' : Identifier},
      KeepsIdentifier P op → P i' → Runs op (i', d) r s' → P s'.1 :=
        fun hop hi' h => hop h hi'
  refine hbehind ?_ (hstable.remove _ hi)
  refine hclosed.bind (keepsIdentifier_atDesk _) fun _ => ?_
  refine hclosed.bind (keepsIdentifier_atDesk _) fun key =>
    hclosed.bind ?_ fun _ => hclosed.pure _
  rw [baseQuery_eq]
  exact keepsIdentifier_publish hstable fun _ h => nomatch h

/-- A policy is installed, or else nothing happens to the identifier. -/
theorem addRecovery_cases {anchors coSigners : List String}
    {r : Except Error String}
    (hrun : Runs (addRecovery anchors coSigners) (i, d) r s') :
    ((∃ e, r = .error e) ∧ s' = (i, d)) ∨
      ∃ policy seed d', i.recoveryPolicy anchors coSigners = .ok policy ∧
        r = .ok (policyId seed) ∧ s' = (i.installPolicy policy seed, d') := by
  have hinstall := addRecovery_iff.mp hrun
  split at hinstall
  · exact .inl ⟨⟨_, hinstall.1⟩, hinstall.2⟩
  · next policy hpolicy =>
      split at hinstall
      · exact .inl ⟨⟨_, hinstall.1⟩, hinstall.2⟩
      · exact .inr ⟨policy, _, _, hpolicy, hinstall.1, hinstall.2⟩

/-- Adding a recovery policy keeps a stable property. -/
theorem keepsIdentifier_addRecovery (hstable : Stable P)
    (anchors coSigners : List String) :
    KeepsIdentifier P (addRecovery anchors coSigners) := by
  rintro ⟨i, d⟩ r s' hrun hi
  rcases addRecovery_cases hrun with ⟨-, rfl⟩ | ⟨policy, seed, d', -, -, rfl⟩
  · exact hi
  · exact hstable.installed policy seed hi

/-- Composing the policy of the references at hand keeps a stable property. -/
theorem keepsIdentifier_composeRecovery (hstable : Stable P) :
    KeepsIdentifier P Issuing.composeRecovery :=
  keepsIdentifier_identifier fun _ _ _ _ hi hrun =>
    keepsIdentifier_addRecovery hstable _ _ hrun hi

end Operations

namespace Edit

variable {P : Identifier → Prop} {i i' : Identifier} {d d' : Desk} {e : Error}

/-- A method that is added is published, and one that cannot be added
changes nothing. -/
theorem keepsIdentifier_addMethod (hstable : Stable P)
    (keyType : KeyType) (pem query fragment : String) (index : Option Nat) :
    KeepsIdentifier P
      (addMethod keyType pem query fragment index).perform := by
  refine keepsIdentifier_identifier fun i d r s' hi hrun => ?_
  rcases addMethod_cases i keyType pem query fragment index with
    ⟨-, hadd⟩ | ⟨hfresh, hadd⟩
  · rw [hadd] at hrun
    obtain ⟨-, rfl⟩ := Runs.throw_iff.mp hrun
    exact hi
  · rw [hadd] at hrun
    obtain ⟨-, rfl⟩ := setIdentifier_answer_iff.mp hrun
    exact hstable.publish keyType pem query fragment _ index hi hfresh

/-- Every edit but the adding of a reference by itself is made of steps that
are kept. -/
theorem kept (hstable : Stable P) (edit : Edit)
    (hedit : ∀ r reference, edit = relate r reference →
      ∀ i, P i → P (i.relate r reference)) :
    KeepsIdentifier P edit.run := by
  refine (closed_keepsIdentifier P).map ?_
  cases edit with
  | addMethod keyType pem query fragment index =>
      exact keepsIdentifier_addMethod hstable keyType pem query fragment index
  | relate r reference =>
      refine keepsIdentifier_identifier fun i d r₀ s' hi hrun => ?_
      obtain ⟨-, rfl⟩ := Runs.modify_iff.mp hrun
      exact hedit r reference rfl i hi
  | removeHolding part =>
      exact keepsIdentifier_edit fun i hi => hstable.remove _ hi
  | removeFragment fragment =>
      exact keepsIdentifier_edit fun i hi => hstable.remove _ hi
  | addRecovery anchors others =>
      exact keepsIdentifier_addRecovery hstable anchors others
  | composeRecovery => exact keepsIdentifier_composeRecovery hstable
  | addDevice now account => exact keepsIdentifier_addDevice hstable account
  | addBinder now keys => exact keepsIdentifier_addBinder hstable keys
  | addPasswordOnDevice now account password =>
      exact keepsIdentifier_addPasswordOnDevice hstable account password
  | addPasswordOnBinder now keys =>
      exact keepsIdentifier_addPasswordOnBinder hstable keys

/-- A method that cannot be added changes nothing. -/
theorem unchanged_of_addMethod {keyType : KeyType} {pem query fragment : String}
    {index : Option Nat}
    (hrun : Runs (addMethod keyType pem query fragment index).run
      (i, d) (.error e) (i', d')) :
    i' = i := by
  have hperform := identifier_bind.mp (Runs.map_error.mp hrun)
  rcases addMethod_cases i keyType pem query fragment index with
    ⟨-, hadd⟩ | ⟨-, hadd⟩
  · rw [hadd] at hperform
    exact congrArg Prod.fst (Runs.throw_iff.mp hperform).2
  · rw [hadd] at hperform
    cases (setIdentifier_answer_iff.mp hperform).1

/-- A policy that cannot be installed changes nothing. -/
theorem unchanged_of_addRecovery {anchors others : List String}
    (hrun : Runs (addRecovery anchors others).run
      (i, d) (.error e) (i', d')) :
    i' = i := by
  rcases addRecovery_cases (Runs.map_error.mp hrun) with
    ⟨-, hs⟩ | ⟨policy, seed, d₁, -, hr, -⟩
  · exact congrArg Prod.fst hs
  · cases hr

end Edit

namespace Edited

variable {edits : List Edit} {i : Identifier}

/-- Every identifier that was edited from a new one is sound. -/
theorem sound (hedited : Edited edits i) : i.Sound := by
  induction hedited with
  | new => exact sound_new
  | edit _ hrun ih =>
      exact Edit.kept stable_sound _
        (fun r reference _ i hi => hi.relate r reference) hrun ih

/-- The references of an edited identifier name methods that are present, if
none was related directly. -/
theorem refers (hedited : Edited edits i)
    (hdirect : ∀ r reference, Edit.relate r reference ∉ edits) : i.Refers := by
  induction hedited with
  | new => exact refers_new
  | @edit edits e _ _ _ _ _ _ hrun ih =>
      have hedit : ∀ r reference, e ≠ .relate r reference := by
        rintro r reference rfl
        exact hdirect r reference (List.mem_append_right _ List.mem_cons_self)
      refine Edit.kept stable_refers e
        (fun r reference h => absurd h (hedit r reference)) hrun ?_
      exact ih fun r reference h =>
        hdirect r reference (List.mem_append_left _ h)

/-- Whatever is done to an identifier from a new one on, and with whatever
outcome, it stays sound, and unless references are added by themselves they stay
references of methods.  A method or a policy that cannot be added leaves the
identifier as it was. -/
theorem sound_refers (hedited : Edited edits i) :
    i.Sound ∧ ((∀ r reference, Edit.relate r reference ∉ edits) → i.Refers) ∧
      (∀ keyType pem query fragment index d e i' d',
        Runs (Edit.addMethod keyType pem query fragment index).run (i, d)
          (.error e) (i', d') → i' = i) ∧
      ∀ anchors others d e i' d',
        Runs (Edit.addRecovery anchors others).run (i, d)
          (.error e) (i', d') → i' = i :=
  ⟨hedited.sound, hedited.refers, fun _ _ _ _ _ _ _ _ _ =>
    Edit.unchanged_of_addMethod,
      fun _ _ _ _ _ _ => Edit.unchanged_of_addRecovery⟩

/-- A key is published once, although it is asked for twice; then nothing can be
composed of it. -/
theorem sound_refers_of_doubled :
    ∃ i : Identifier,
      Edited [.addMethod .rsa "pem" "" "key-0" none,
        .addMethod .rsa "pem" "" "key-1" (some 0),
        .addRecovery ["#key-0"] []] i ∧
      i.methods.length = 1 ∧ i.Sound ∧ i.Refers := by
  let d := Desk.bare []
  let m : VerificationMethod :=
    .publishing (methodId "pem" "" "key-0") .rsa "#did0" "pem"
  let i : Identifier := Identifier.new.insertMethod m none
  have hfirst :
      Runs (Edit.addMethod .rsa "pem" "" "key-0" none).run (.new, d)
        (.ok ()) (i, d) :=
    rfl
  have hdouble : i.methods.any
      (·.materialHash? == some (Address.keyHash (Utf8.encode "pem"))) = true :=
    List.any_eq_true.mpr
      ⟨m, List.mem_singleton_self m, beq_self_eq_true (m.materialHash?)⟩
  have hsecond : Runs (Edit.addMethod .rsa "pem" "" "key-1" (some 0)).run (i, d)
      (.error (.did (.duplicateKey (Address.keyHash (Utf8.encode "pem")))))
        (i, d) := by
    rcases addMethod_cases i .rsa "pem" "" "key-1" (some 0) with
      ⟨-, hadd⟩ | ⟨hfresh, -⟩
    · refine Runs.map_error.mpr (identifier_bind.mpr ?_)
      rw [hadd]
      exact Runs.throw_iff.mpr ⟨rfl, rfl⟩
    · rw [hdouble] at hfresh
      cases hfresh
  have hthird : Runs (Edit.addRecovery ["#key-0"] []).run (i, d)
      (.error (.did (.policy (.tooFewKeys 1)))) (i, d) := rfl
  have hedited := ((Edited.new.edit hfirst).edit hsecond).edit hthird
  obtain ⟨hsound, hrefers, -, -⟩ := sound_refers hedited
  refine ⟨i, hedited, rfl, hsound, hrefers fun r reference h => ?_⟩
  simp at h

end Edited

end DidVault
