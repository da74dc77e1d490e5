import DidVault.Proofs.Keys.Custody
import DidVault.Registry

/-!
# Runs of issuing

An operation of issuing works on an identifier at a desk.  The lemmas here take
a run of it apart: what it made of the identifier (`Identifier.published`), and
what it changed of the records, which is at most the account's own key and its
password key.
-/

namespace DidVault

variable {α β : Type} {i i' : Identifier} {d d' : Desk} {s' : Identifier × Desk}
  {e : Error}

namespace IssueM

/-- The view of the records that an operation on an identifier works with. -/
def view (s : Identifier × Desk) : View := s.2.view

/-- An operation at the desk leaves the identifier as it is. -/
@[simp] theorem atDesk_iff {op : DeskM α} {r : Except Error α} :
    Runs (atDesk op) (i, d) r s' ↔ ∃ d', Runs op d r d' ∧ s' = (i, d') := by
  have hrun : ∀ r d', Runs op d r d' → Runs (atDesk op) (i, d) r (i, d') := by
    intro r d' h
    have hop : op.run.run d = (r, d') := h
    unfold atDesk
    rw [Runs.get_bind]
    simp only [hop]
    cases r <;> simp [Except.map]
  constructor
  · intro h
    obtain ⟨rfl, rfl⟩ := Runs.unique h (hrun _ _ (Runs.total op d))
    exact ⟨_, Runs.total op d, rfl⟩
  · rintro ⟨d', h, rfl⟩
    exact hrun r d' h

/-- An operation at the desk makes the same changes as part of the issuing. -/
theorem makes_atDesk {op : DeskM α} {s : Identifier × Desk}
    {changes : List Change} (hop : Makes Desk.view op s.2 changes) :
    Makes view (atDesk op) s changes where
  ok hrun := by
    obtain ⟨d', h, rfl⟩ := atDesk_iff.mp hrun
    exact hop.ok h
  error hrun := by
    obtain ⟨d', h, rfl⟩ := atDesk_iff.mp hrun
    exact hop.error h

/-- Asking for the identifier answers it and changes nothing. -/
theorem identifier_iff {s : Identifier × Desk} {r : Except Error Identifier} :
    Runs identifier s r s' ↔ r = .ok s.1 ∧ s' = s := by
  unfold identifier
  rw [Runs.get_bind]
  exact Runs.pure_iff

/-- What follows goes on with the identifier. -/
@[simp] theorem identifier_bind {f : Identifier → IssueM β}
    {s : Identifier × Desk} {r : Except Error β} :
    Runs (identifier >>= f) s r s' ↔ Runs (f s.1) s r s' :=
  Runs.bind_of_ok (identifier_iff.mpr ⟨rfl, rfl⟩)

/-- What follows goes on with the identifier that was set. -/
@[simp] theorem setIdentifier_bind {j : Identifier} {f : Unit → IssueM β}
    {r : Except Error β} :
    Runs (setIdentifier j >>= f) (i, d) r s' ↔ Runs (f ()) (j, d) r s' := by
  unfold setIdentifier
  rw [Runs.modify_bind]

/-- What follows the question for the identifier succeeds with it or not at
all. -/
theorem succeeds_identifier_bind {f : Identifier → IssueM β} :
    Succeeds (identifier >>= f) (i, d) ↔ Succeeds (f i) (i, d) := by
  simp only [Succeeds, identifier_bind]

/-- What follows a new identifier succeeds with that one or not at all. -/
theorem succeeds_setIdentifier_bind {j : Identifier} {f : Unit → IssueM β} :
    Succeeds (setIdentifier j >>= f) (i, d) ↔ Succeeds (f ()) (j, d) := by
  simp only [Succeeds, setIdentifier_bind]

/-- An operation at the desk has to succeed, and then what follows it. -/
theorem succeeds_atDesk_bind {op : DeskM α} {f : α → IssueM β} :
    Succeeds (atDesk op >>= f) (i, d) ↔
      ∃ a d₁, Runs op d (.ok a) d₁ ∧ Succeeds (f a) (i, d₁) := by
  rw [succeeds_bind]
  constructor
  · rintro ⟨a, s₁, hstep, hrest⟩
    obtain ⟨d₁, hop, rfl⟩ := atDesk_iff.mp hstep
    exact ⟨a, d₁, hop, hrest⟩
  · rintro ⟨a, d₁, hop, hrest⟩
    exact ⟨a, _, atDesk_iff.mpr ⟨d₁, hop, rfl⟩, hrest⟩

/-- Asking for the identifier changes no record. -/
theorem makes_identifier {s : Identifier × Desk} : Makes view identifier s [] :=
  Makes.get.bind fun _ _ _ => .pure _

/-- Setting the identifier changes no record. -/
theorem makes_setIdentifier {s : Identifier × Desk} (j : Identifier) :
    Makes view (setIdentifier j) s [] :=
  .modify (.refl _)

/-- Asking for the identifier commutes with what is done to the desk. -/
theorem commutes_identifier (f : Desk → Desk) :
    Commutes (Prod.map id f) identifier := by
  intro s r s' hrun
  obtain ⟨rfl, rfl⟩ := identifier_iff.mp hrun
  exact identifier_iff.mpr ⟨rfl, rfl⟩

/-- Setting the identifier commutes with what is done to the desk. -/
theorem commutes_setIdentifier (f : Desk → Desk) (j : Identifier) :
    Commutes (Prod.map id f) (setIdentifier j) := by
  intro s r s' hrun
  obtain ⟨rfl, rfl⟩ := Runs.modify_iff.mp hrun
  exact Runs.modify_iff.mpr ⟨rfl, rfl⟩

/-- Work on an identifier is done at the desk; the identifier is given and
returned. -/
theorem onIdentifier_iff {op : IssueM α} {r : Except Error (α × Identifier)} :
    Runs (onIdentifier i op) d r d' ↔
      ∃ r₀ i', Runs op (i, d) r₀ (i', d') ∧ r = r₀.map (·, i') := by
  have hrun : ∀ r₀ i' d', Runs op (i, d) r₀ (i', d') →
      Runs (onIdentifier i op) d (r₀.map (·, i')) d' := by
    intro r₀ i' d' h
    have hop : op.run.run (i, d) = (r₀, (i', d')) := h
    unfold onIdentifier
    rw [Runs.get_bind]
    simp only [hop]
    cases r₀ <;> simp [Except.map]
  constructor
  · intro h
    obtain ⟨rfl, rfl⟩ := Runs.unique h (hrun _ _ _ (Runs.total op (i, d)))
    exact ⟨_, _, Runs.total op (i, d), rfl⟩
  · rintro ⟨r₀, i', h, rfl⟩
    exact hrun r₀ i' d' h

/-- Work that succeeds has done so on the identifier that was given. -/
theorem onIdentifier_ok {op : IssueM α} {a : α}
    (hrun : Runs (onIdentifier i op) d (.ok (a, i')) d') :
    Runs op (i, d) (.ok a) (i', d') := by
  obtain ⟨r₀, i₀, h, hr⟩ := onIdentifier_iff.mp hrun
  cases r₀ with
  | error e => cases hr
  | ok a₀ =>
      cases hr
      exact h

/-- A first step at the desk may as well be done before the work on the
identifier begins. -/
theorem onIdentifier_atDesk_bind (i : Identifier) (op : DeskM α)
    (f : α → IssueM β) :
    onIdentifier i (atDesk op >>= f) = op >>= fun a =>
      onIdentifier i (f a) := by
  refine Runs.ext fun d r d' => ?_
  rw [onIdentifier_iff]
  obtain ⟨r₁, d₁, hop⟩ := Runs.ends op d
  have hstep : Runs (atDesk op) (i, d) r₁ (i, d₁) :=
    atDesk_iff.mpr ⟨d₁, hop, rfl⟩
  cases r₁ with
  | ok a =>
      rw [Runs.bind_of_ok hop, onIdentifier_iff]
      simp only [Runs.bind_of_ok hstep]
  | error e =>
      rw [Runs.bind_of_error hop]
      simp only [Runs.bind_of_error hstep]
      constructor
      · rintro ⟨r₀, i', ⟨rfl, hs⟩, rfl⟩
        cases hs
        exact ⟨rfl, rfl⟩
      · rintro ⟨rfl, rfl⟩
        exact ⟨.error e, i, ⟨rfl, rfl⟩, rfl⟩

/-- Work on an identifier makes its changes at the desk. -/
theorem makes_onIdentifier {op : IssueM α} {changes : List Change}
    (hop : Makes view op (i, d) changes) :
    Makes Desk.view (onIdentifier i op) d changes where
  ok {a d'} hrun := by
    have hdone : Runs op (i, d) (.ok a.1) (a.2, d') := onIdentifier_ok hrun
    exact hop.ok hdone
  error hrun := by
    obtain ⟨r₀, i₀, h, hr⟩ := onIdentifier_iff.mp hrun
    cases r₀ with
    | ok a => cases hr
    | error e => exact hop.error h

end IssueM

/-- An identifier with one more published key. -/
def Identifier.published (i : Identifier) (kind : Credential)
    (keyType : KeyType) (pem query : String) (index : Option Nat) :
    Identifier :=
  kind.relationships.foldl
    (fun i r => i.relate r (Names.reference kind.fragment)) (i.insertMethod
      (.publishing (Identifier.methodId pem query kind.fragment) keyType
        (Names.reference i.fragment) pem) index)

/-- The policy is the one over the credentials of the identifier. -/
def Identifier.Composes (i : Identifier) (policy : Policy) : Prop :=
  i.recoveryPolicy i.anchorReferences i.coSignerReferences = .ok policy

namespace Issuing

open IssueM

variable {now : Timestamp} {account password : String} {keys : List BinderKey}
variable {kind : Credential} {keyType : KeyType} {pem query : String}
  {index : Option Nat}
variable {issued : Issued} {key : BinderKey} {s : Identifier × Desk}

/-- An identifier with a new password key in place of the one before. -/
def withPasswordOnDevice (now : Timestamp) (pem : String) (i : Identifier) :
    Identifier :=
  (i.removeHolding Credential.passwordOnDevice.queryPair).1.published
    .passwordOnDevice .rsa pem (baseQuery now .passwordOnDevice)
      (i.positionOf .passwordOnDevice)

/-- An identifier with a key that was handed in. -/
def withExternal (now : Timestamp) (kind : Credential) (key : BinderKey)
    (i : Identifier) : Identifier :=
  i.published kind key.keyType key.publicKeyPem
    (forwardedQuery now kind key) none

/-- A key is published if no method has it yet. -/
theorem publish_ok
    (hrun : Runs (publish kind keyType pem query index) (i, d)
      (.ok issued) s') :
    issued = ⟨Identifier.methodId pem query kind.fragment, query⟩ ∧
      s' = (i.published kind keyType pem query index, d) := by
  unfold publish at hrun
  rw [identifier_bind] at hrun
  by_cases hdouble :
      i.methods.any
        (·.materialHash? == some (Address.keyHash (Utf8.encode pem))) = true
  · simp [Identifier.addMethod, hdouble] at hrun
  · simp only [Identifier.addMethod, hdouble] at hrun
    rw [if_neg Bool.false_ne_true] at hrun
    simp only [setIdentifier_bind] at hrun
    obtain ⟨h, rfl⟩ := Runs.pure_iff.mp hrun
    exact ⟨Except.ok.inj h, rfl⟩

/-- A key that no method has is published. -/
theorem publish_of_fresh
    (hfresh : i.methods.any
      (·.materialHash? == some (Address.keyHash (Utf8.encode pem))) = false) :
    Runs (publish kind keyType pem query index) (i, d)
      (.ok ⟨Identifier.methodId pem query kind.fragment, query⟩)
      (i.published kind keyType pem query index, d) := by
  unfold publish
  rw [identifier_bind]
  simp only [Identifier.addMethod, hfresh]
  rw [if_neg Bool.false_ne_true]
  simp only [setIdentifier_bind]
  exact Runs.pure_iff.mpr ⟨rfl, rfl⟩

/-- Publishing changes no record. -/
theorem makes_publish :
    Makes view (publish kind keyType pem query index) s [] := by
  refine makes_identifier.bind fun j s₁ _ => ?_
  cases j.addMethod keyType pem query kind.fragment index with
  | error fault => exact .throw _ []
  | ok added => exact (makes_setIdentifier _).bind fun _ _ _ => .pure _

/-- A key that was handed in is published if its id holds its hash. -/
theorem publishExternal_ok
    (hrun : Runs (publishExternal now kind key) (i, d) (.ok issued) s') :
    s' = (withExternal now kind key i, d) := by
  unfold publishExternal at hrun
  split at hrun
  · simp at hrun
  · split at hrun
    · simp at hrun
    · exact (publish_ok hrun).2

/-- Publishing a key that was handed in changes no record. -/
theorem makes_publishExternal :
    Makes view (publishExternal now kind key) s [] := by
  unfold publishExternal
  split
  · exact .throw _ []
  · split
    · exact .throw _ []
    · exact makes_publish

/-- The device publishes the account's own key. -/
theorem addDevice_ok
    (hrun : Runs (addDevice now account) (i, d) (.ok issued) s') :
    ∃ pair d', Runs (Custody.spaceKey account) d (.ok pair) d' ∧
      s' = (i.published .device .rsa pair.publicPem
        (baseQuery now .device) none, d') := by
  obtain ⟨pair, s₁, hstep, hpublish⟩ := Runs.bind_ok.mp hrun
  obtain ⟨d', hpair, rfl⟩ := atDesk_iff.mp hstep
  exact ⟨pair, d', hpair, (publish_ok hpublish).2⟩

/-- The client's own key is published as it was handed in. -/
theorem addBinder_ok (hrun : Runs (addBinder now keys) (i, d) (.ok issued) s') :
    ∃ key, BinderKey.binder? keys = some key ∧
      s' = (withExternal now .binder key i, d) := by
  unfold addBinder at hrun
  split at hrun
  · next key hkey => exact ⟨key, hkey, publishExternal_ok hrun⟩
  · simp at hrun

/-- Publishing the client's key changes no record. -/
theorem makes_addBinder : Makes view (addBinder now keys) s [] := by
  unfold addBinder
  split
  · exact makes_publishExternal
  · exact .throw _ []

/-- The client's password key is published if it was handed in. -/
theorem addPasswordOnBinder_ok {issued? : Option Issued}
    (hrun : Runs (addPasswordOnBinder now keys) (i, d) (.ok issued?) s') :
    s' = (match BinderKey.passwordOnBinder? keys with
        | some key => withExternal now .passwordOnBinder key i
        | none => i, d) := by
  unfold addPasswordOnBinder at hrun
  cases hkey : BinderKey.passwordOnBinder? keys with
  | some key =>
      rw [hkey] at hrun
      obtain ⟨issued, s₁, hpublish, hdone⟩ := Runs.bind_ok.mp hrun
      obtain ⟨-, rfl⟩ := Runs.pure_iff.mp hdone
      exact publishExternal_ok hpublish
  | none =>
      rw [hkey] at hrun
      exact (Runs.pure_iff.mp hrun).2

/-- Publishing the key for the client's password changes no record. -/
theorem makes_addPasswordOnBinder :
    Makes view (addPasswordOnBinder now keys) s [] := by
  unfold addPasswordOnBinder
  split
  · exact makes_publishExternal.bind fun _ _ _ => .pure _
  · exact .pure _

/-- A new password key is published where the old one stood, or else at the
end. -/
theorem addPasswordOnDevice_ok {answer : Issued × PasswordKey}
    (hrun : Runs (addPasswordOnDevice now account password) (i, d)
      (.ok answer) s') :
    s'.1 = withPasswordOnDevice now answer.2.pair.publicPem i ∧
      ∃ d₁, Runs (Custody.delete account) d (.ok ()) d₁ ∧
        Runs (Custody.passwordKey account password) d₁ (.ok answer.2) s'.2 := by
  unfold addPasswordOnDevice at hrun
  rw [identifier_bind, setIdentifier_bind] at hrun
  obtain ⟨u, s₁, hfirst, hrest⟩ := Runs.bind_ok.mp hrun
  obtain ⟨d₁, hdelete, rfl⟩ := atDesk_iff.mp hfirst
  obtain ⟨key, s₂, hsecond, hrest⟩ := Runs.bind_ok.mp hrest
  obtain ⟨d₂, hkey, rfl⟩ := atDesk_iff.mp hsecond
  obtain ⟨issued, s₃, hpublish, hdone⟩ := Runs.bind_ok.mp hrest
  obtain ⟨h, rfl⟩ := Runs.pure_iff.mp hdone
  obtain ⟨-, rfl⟩ := publish_ok hpublish
  cases h
  exact ⟨rfl, d₁, hdelete, hkey⟩

/-- A new password key cannot be published where the old one cannot be removed,
where none can be made in its place, or where the key is published already. -/
theorem addPasswordOnDevice_error
    (hrun : Runs (addPasswordOnDevice now account password) (i, d)
      (.error e) s') :
    (Fails (Custody.delete account) d ∧ d.view.Changed [] s'.2.view) ∨
      ∃ d₁, Runs (Custody.delete account) d (.ok ()) d₁ ∧
        ((Fails (Custody.passwordKey account password) d₁ ∧
            d₁.view.Changed [] s'.2.view) ∨
          ∃ key d₂, Runs (Custody.passwordKey account password) d₁
            (.ok key) d₂ ∧
            d₂.view.Changed [] s'.2.view) := by
  unfold addPasswordOnDevice at hrun
  rw [identifier_bind, setIdentifier_bind] at hrun
  rcases Runs.bind_error.mp hrun with hfirst | ⟨u, s₁, hfirst, hrest⟩
  · obtain ⟨d₁, hdelete, rfl⟩ := atDesk_iff.mp hfirst
    exact .inl ⟨⟨e, d₁, hdelete⟩, Custody.atOnce_delete.error hdelete⟩
  · obtain ⟨d₁, hdelete, rfl⟩ := atDesk_iff.mp hfirst
    refine .inr ⟨d₁, hdelete, ?_⟩
    rcases Runs.bind_error.mp hrest with hsecond | ⟨key, s₂, hsecond, hrest⟩
    · obtain ⟨d₂, hkey, rfl⟩ := atDesk_iff.mp hsecond
      exact .inl ⟨⟨e, d₂, hkey⟩,
        Custody.failsClean_passwordKey account password hkey⟩
    · obtain ⟨d₂, hkey, rfl⟩ := atDesk_iff.mp hsecond
      refine .inr ⟨key, d₂, hkey, ?_⟩
      rcases Runs.bind_error.mp hrest with hpublish | ⟨issued, s₃, -, hdone⟩
      · exact (makes_publish.error hpublish).nothing
      · cases (Runs.pure_iff.mp hdone).1

/-- Publishing a new password key replaces the one before among the records. -/
theorem exists_makes_addPasswordOnDevice :
    ∃ wrapped, Makes view (addPasswordOnDevice now account password) s
      (Custody.passwordChanges account wrapped) := by
  refine makes_identifier.bind_exists fun j s₁ _ => ?_
  refine (makes_setIdentifier _).bind_exists fun _ s₂ _ => ?_
  refine (makes_atDesk Custody.makes_delete).bind_exists fun _ s₃ hstep => ?_
  obtain ⟨d₃, hdelete, rfl⟩ := atDesk_iff.mp hstep
  have hkey : ∃ key : PasswordKey,
      Makes Desk.view (Custody.passwordKey account password) d₃
        [(.passwordKey account, some key.wrapped)] :=
    Makes.exists_of_ok
      (fun key d' hrun =>
        Custody.passwordKey_ok (Custody.lookup_of_delete hdelete) hrun)
      fun e d' hrun => Custody.failsClean_passwordKey account password hrun
  obtain ⟨key, hkey⟩ := hkey
  refine ⟨key.wrapped, (makes_atDesk hkey).bind_nil fun _ _ _ => ?_⟩
  exact makes_publish.bind_nil fun _ _ _ => .pure _

/-- A policy over known references is installed under a seed that is drawn for
it. -/
theorem addRecovery_iff {anchors others : List String}
    {r : Except Error String} :
    Runs (addRecovery anchors others) (i, d) r s' ↔
      match i.recoveryPolicy anchors others with
      | .error e => r = .error (.did e) ∧ s' = (i, d)
      | .ok policy =>
        if d.entropy.length < Identifier.seedLength then
          r = .error .abandoned ∧ s' = (i, d)
        else r = .ok
          (Identifier.policyId (d.entropy.take Identifier.seedLength)) ∧
          s' = (i.installPolicy policy (d.entropy.take Identifier.seedLength),
            { d with entropy := d.entropy.drop Identifier.seedLength }) := by
  unfold addRecovery
  rw [identifier_bind]
  cases i.recoveryPolicy anchors others with
  | error e => exact Runs.throw_iff
  | ok policy =>
      dsimp only
      split
      · next hshort =>
          refine Runs.bind_of_error
            (atDesk_iff.mpr ⟨d, DeskM.draw_iff.mpr ?_, rfl⟩)
          rw [if_pos hshort]
          exact ⟨rfl, rfl⟩
      · next henough =>
          have hdraw : Runs (DeskM.draw Identifier.seedLength .abandoned) d
              (.ok (d.entropy.take Identifier.seedLength))
              { d with entropy := d.entropy.drop Identifier.seedLength } := by
            rw [DeskM.draw_iff, if_neg henough]
            exact ⟨rfl, rfl⟩
          rw [Runs.bind_of_ok (atDesk_iff.mpr ⟨_, hdraw, rfl⟩),
            setIdentifier_bind]
          exact Runs.pure_iff

/-- The recovery policy is composed of what is published. -/
theorem composeRecovery_iff {r : Except Error String} :
    Runs composeRecovery (i, d) r s' ↔
      Runs (addRecovery i.anchorReferences i.coSignerReferences)
        (i, d) r s' := by
  unfold composeRecovery
  rw [identifier_bind]

/-- A policy that is composed is installed under the seed that comes next. -/
theorem composeRecovery_ok {id : String}
    (hrun : Runs composeRecovery (i, d) (.ok id) s') :
    ∃ policy, i.Composes policy ∧
      s' = (i.installPolicy policy (d.entropy.take Identifier.seedLength),
        { d with entropy := d.entropy.drop Identifier.seedLength }) := by
  have hinstall := addRecovery_iff.mp (composeRecovery_iff.mp hrun)
  split at hinstall
  · cases hinstall.1
  · next policy hpolicy =>
      split at hinstall
      · cases hinstall.1
      · exact ⟨policy, hpolicy, hinstall.2⟩

/-- Composing a policy changes no record. -/
theorem makes_composeRecovery : Makes view composeRecovery s [] := by
  refine makes_identifier.bind fun j s₁ _ => ?_
  refine makes_identifier.bind fun j' s₂ _ => ?_
  split
  · exact .throw _ []
  · have hdraw :
        Makes view (atDesk (DeskM.draw Identifier.seedLength .abandoned)) s₂
          [] :=
      makes_atDesk ((DeskM.leavesView_draw _ _).makes s₂.2)
    refine hdraw.bind fun seed s₃ _ => ?_
    exact (makes_setIdentifier _).bind fun _ _ _ => .pure _

end Issuing

end DidVault
