import DidVault.Proofs.Did.Edits
import DidVault.Proofs.Did.Standing
import DidVault.Proofs.Registry.Creation
import DidVault.Proofs.Registry.History
import DidVault.Proofs.Registry.Rooted

/-!
# Every stored document stands

A creation arranges the keys that it issues (`Registry.issuedArrangement`), and
a reset puts its password key in the place of the one before
(`Registry.methods_reissued`).  Both compose the policy of what is there then,
so that what they store is a document that stands.

Therefore, whatever calls were made from a desk without records, every stored
document stands, and an account that is indexed under a DID has a document under
it (`Reached.standing`).
-/

namespace DidVault

open DeskM Registry Identifier Issuing

/-- The bytes are those of a document that stands, and the DID is the one of
it. -/
def StandsAt (did : String) (bytes : Bytes) : Prop :=
  ∃ i : Identifier, i.Standing ∧ bytes = i.toDocument.canonicalBytes ∧
    did = normalizeDid i.did

/-- Every account that is indexed under a DID has a document under it. -/
def Sight.Present (look : Sight) : Prop :=
  ∀ account did, look.Maps account did → ∃ bytes,
    look (Slot.document did).key = some bytes

/-- Every document stands that is stored, and there is one for every indexed
account. -/
structure Sight.Standing (look : Sight) : Prop extends Sight.Rooted look where
  stands : ∀ did bytes, look (Slot.document did).key = some bytes →
    StandsAt did bytes
  present : look.Present

namespace Registry

variable {look : Sight} {account did : String} {canonical : Bytes} {s : Slot}

/-- The document that an account loses is that of the DID that it was mapped
to. -/
theorem staleDocument_eq_some (hpaired : look.Paired)
    (hstale : staleDocument look account did = some s) :
    ∃ previous, look.Maps account previous ∧ s = .document previous := by
  simp only [staleDocument, stale, Option.map_eq_some_iff,
    Option.filter_eq_some_iff, Sight.text?_eq_some_iff] at hstale
  obtain ⟨previous, ⟨hmaps, -⟩, rfl⟩ := hstale
  rw [hpaired.normal previous account
    ((hpaired.inverse account previous).mp hmaps)]
  exact ⟨previous, hmaps, rfl⟩

end Registry

namespace Sight

variable {look : Sight} {account did : String} {canonical wrapped : Bytes}
  {changes : List Change}
variable {own : KeyPair}

namespace Present

/-- A store without records holds no indexed DID without a document. -/
theorem start : Present (Table.get? .empty) :=
  fun _ _ hmaps => nomatch hmaps

/-- Neither the index nor a document is changed together with the keys of an
account. -/
theorem after_keys (h : look.Present)
    (hkeys : ∀ c ∈ changes, c.1 = .spaceKey account ∨
      c.1 = .passwordKey account) :
    (look.after changes).Present := by
  have hkept : ∀ s : Slot, s ≠ .spaceKey account → s ≠ .passwordKey account →
      look.after changes s.key = look s.key := by
    intro s hspace hpassword
    refine after_slot fun c hc hsame => ?_
    rw [← hsame] at hspace hpassword
    exact (hkeys c hc).elim hspace hpassword
  intro other e hmaps
  rw [Maps, hkept (.didOf other) (by simp) (by simp)] at hmaps
  rw [hkept (.document e) (by simp) (by simp)]
  exact h other e hmaps

/-- A document that is stored is that of the account which is indexed then, and
no other account loses its own. -/
theorem after_storeChanges (h : look.Present) (hpaired : look.Paired) :
    (look.after (storeChanges look account did canonical)).Present := by
  intro other e hmaps
  rw [storeChanges, after_append,
    maps_after_indexChanges (hpaired.after_aside aside_of_documentChanges)]
      at hmaps
  rcases hmaps with ⟨rfl, rfl⟩ | ⟨hother, he, hmaps⟩
  · exact ⟨_, Registry.after_storeChanges.1⟩
  · have hkept : look.Maps other e := by
      rw [Maps, after_slot (s := .didOf other)] at hmaps
      · exact hmaps
      · exact fun c hc hsame => aside_of_documentChanges c hc (hsame ▸ trivial)
    obtain ⟨bytes, hbytes⟩ := h other e hkept
    refine ⟨bytes, ?_⟩
    rw [after_slot (s := .document e)]
    · exact hbytes
    · intro c hc hsame
      rcases List.mem_append.mp (mem_slots_of_storeChanges hc) with
        hslot | hslot
      · rw [hsame, documentSlots] at hslot
        rcases List.mem_cons.mp hslot with hsame | hstale
        · exact he (Slot.document.inj hsame)
        · obtain ⟨previous, hprevious, hsame⟩ :=
            staleDocument_eq_some hpaired (Option.mem_toList.mp hstale)
          rw [← Slot.document.inj hsame] at hprevious
          exact hother (hpaired.account_eq hprevious hkept)
      · rw [hsame] at hslot
        rcases kind_of_mem_indexSlots hslot with ⟨x, hx⟩ | ⟨x, hx⟩ <;> cases hx

/-- After a reset every indexed DID has its document again. -/
theorem after_resetChanges (h : look.Present) (hpaired : look.Paired) :
    (look.after (resetChanges look account wrapped did canonical)).Present := by
  rw [resetChanges, after_append]
  refine (h.after_keys fun c hc =>
    .inr (slot_of_passwordChanges hc)).after_storeChanges ?_
  exact hpaired.after_aside aside_of_passwordChanges

/-- After a creation it has, too. -/
theorem after_createChanges (h : look.Present) (hpaired : look.Paired) :
    (look.after (createChanges look account own wrapped did
      canonical)).Present := by
  have hown : ∀ c ∈ Custody.ownChanges look account own,
      c.1 = .spaceKey account ∨ c.1 = .passwordKey account :=
    fun c hc => .inl (kind_of_mem_ownSlots (slot_of_ownChanges hc))
  rw [createChanges, after_append]
  exact (h.after_keys hown).after_resetChanges
    (hpaired.after_aside aside_of_ownChanges)

/-- Every call that manages accounts leaves indexed accounts with their
documents. -/
theorem of_effect {c : Call} {answer : Answer} (h : look.Present)
    (hpaired : look.Paired) (hmanages : c.Manages)
    (heffect : c.Effect look answer changes) :
    (look.after changes).Present := by
  cases c with
  | create now account password keys =>
      cases answer with
      | issued doc =>
          obtain ⟨own, rfl⟩ := heffect
          exact h.after_createChanges hpaired
      | rewrapped wrapped | indexed => exact heffect.elim
  | reset now lookup password =>
      cases answer with
      | issued doc =>
          obtain ⟨account, -, rfl⟩ := heffect
          exact h.after_resetChanges hpaired
      | rewrapped wrapped | indexed => exact heffect.elim
  | updatePassword account old new =>
      cases answer with
      | rewrapped wrapped =>
          obtain rfl := heffect
          have hkeys : ∀ c ∈ [(Slot.passwordKey account, some wrapped)],
              c.1 = .spaceKey account ∨ c.1 = .passwordKey account := by
            intro c hc
            rw [List.mem_singleton.mp hc]
            exact .inr rfl
          exact h.after_keys hkeys
      | issued doc | indexed => exact heffect.elim
  | saveIndex account did => exact hmanages.elim

end Present

/-- Everything stands in a store without records. -/
theorem Standing.start : Standing (Table.get? .empty) where
  toRooted := .start
  stands _ _ h := nomatch h
  present := .start

end Sight

namespace Registry

variable {P : Identifier → Prop} {now : Timestamp} {own password : KeyPair}
  {binder : BinderKey}
variable {account : String} {keys : List BinderKey} {a : Arrangement}
  {i : Identifier}
variable {d d' : Desk} {issued : IssuedDocument}

/-- A new password key keeps a stable property of the identifier. -/
theorem keepsIdentifier_reissuePassword (hstable : Stable P) (now : Timestamp)
    (account password : String) :
    KeepsIdentifier P (reissuePassword now account password) := by
  have hclosed := closed_keepsIdentifier P
  refine keepsIdentifier_identifier fun i d r s' hi hrun => ?_
  rw [IssueM.setIdentifier_bind] at hrun
  refine hclosed.bind
    (keepsIdentifier_addPasswordOnDevice hstable account password)
      (fun answer => ?_) hrun (hstable.remove _ hi)
  exact hclosed.bind (keepsIdentifier_composeRecovery hstable) fun _ =>
    hclosed.pure _

/-- What a creation issues is a document that stands. -/
theorem standing_of_createSteps {password : String}
    (hrun : Runs (createSteps now account password keys) d (.ok issued) d') :
    ∃ key i d₁, Runs
        (IssueM.onIdentifier .new (issueAll now account password keys)) d
          (.ok (key, i)) d₁ ∧
      i.Standing ∧ issued.did = i.did ∧
      issued.document = i.toDocument.canonicalBytes := by
  obtain ⟨⟨key, i⟩, d₁, hwork, hstore⟩ := Runs.bind_ok.mp hrun
  obtain ⟨-, hissued⟩ := store_ok hstore
  refine ⟨key, i, d₁, hwork,
    standing_of_issueAll (IssueM.onIdentifier_ok hwork), ?_, ?_⟩
  · rw [hissued]
  · rw [hissued]

/-- A creation stores a document that stands. -/
theorem standsAt_of_createSteps {password : String}
    (hrun : Runs (createSteps now account password keys) d (.ok issued) d') :
    StandsAt (normalizeDid issued.did) issued.document := by
  obtain ⟨key, i, d₁, -, hi, hdid, hdocument⟩ := standing_of_createSteps hrun
  exact ⟨i, hi, hdocument, congrArg normalizeDid hdid⟩

/-- The keys with a new password key in the place of the one before. -/
def reissuedArrangement (now : Timestamp) (pem : String) (a : Arrangement) :
    Arrangement :=
  a.replace (ownMethod now .passwordOnDevice pem) ⟨pem, publishes_ownMethod ..⟩
    (holds_ownPassword now pem)

/-- A new password key keeps the fragment. -/
theorem fragment_reissued (now : Timestamp) (password : KeyPair)
    (i : Identifier) :
    (reissued now password i).fragment = i.fragment :=
  (fragment_withPasswordOnDevice ..).trans (fragment_removeWhere ..)

/-- The node of the policy goes, and the new password key takes the place of the
one before. -/
theorem methods_reissued (now : Timestamp) (password : KeyPair)
    (harranged : i.Arranged a)
    (hfragment : i.fragment = Names.defaultFragment) :
    (reissued now password i).methods =
      (reissuedArrangement now password.publicPem a).keys := by
  let j := (i.removeFragment Names.recoveryFragment).1
  have hkeys : j.methods = a.keys := methods_removeRecovery harranged
  have hplace : j.positionOf .passwordOnDevice = some a.anchors.length := by
    rw [positionOf, hkeys, a.findIdx?_secret]
  have hkept :
      (j.removeHolding Credential.passwordOnDevice.queryPair).1.methods =
        a.anchors ++ a.behind.filter fun m =>
          !Text.holds Credential.passwordOnDevice.queryPair m.id := by
    rw [removeHolding, methods_removeWhere, hkeys, a.filter_replaced]
  have hcontroller :
      (j.removeHolding Credential.passwordOnDevice.queryPair).1.fragment =
        Names.defaultFragment := hfragment
  show (withPasswordOnDevice now password.publicPem j).methods = _
  rw [withPasswordOnDevice, hplace, baseQuery_eq, published_eq, hcontroller]
  show List.take _ _ ++ _ :: List.drop _ _ = _
  rw [hkept, List.take_left, List.drop_left]
  rfl

/-- Nothing is for invocations once the policy is gone. -/
theorem invocations_reissued (now : Timestamp) (password : KeyPair)
    (hstanding : i.Standing) :
    (reissued now password i).relationships.capabilityInvocation = [] := by
  rw [reissued, withPasswordOnDevice, invocations_published, removeHolding]
  exact invocations_removeWhere _ _ hstanding.invocations_removeRecovery

/-- A document on which a new password key is issued stands again, with the same
DID. -/
theorem standing_of_reissue {password : String} {key : PasswordKey}
    {i' : Identifier} (hstanding : i.Standing) (harranged : i.Arranged a)
    (hrun : Runs (reissuePassword now account password) (i, d) (.ok key)
      (i', d')) :
    i'.Standing ∧ i'.Arranged (reissuedArrangement now key.pair.publicPem a) ∧
      i'.did = i.did := by
  have hsound :=
    keepsIdentifier_reissuePassword stable_sound _ _ _ hrun hstanding.sound
  have hrefers :=
    keepsIdentifier_reissuePassword stable_refers _ _ _ hrun hstanding.refers
  obtain ⟨_, d₂, policy, -, -, -, hpolicy, hi'⟩ := reissuePassword_ok hrun
  obtain ⟨pem, hfounded⟩ := hstanding.founded
  have hmethods := methods_reissued now key.pair harranged hstanding.fragment
  have hreissued := founded_reissued now key.pair hfounded
  have hinstalled :=
    founded_installPolicy (d₂.entropy.take seedLength) hreissued
      (recoveryPolicy_ok hpolicy)
  rw [← hi'] at hinstalled
  have hagain : i'.Standing := by
    rw [hi'] at hsound hrefers ⊢
    exact standing_installPolicy hmethods hpolicy hsound hrefers
      ((fragment_reissued ..).trans hstanding.fragment) hreissued
      (invocations_reissued now key.pair hstanding)
  refine ⟨hagain, ?_, ?_⟩
  · rw [hi']
    exact arranged_installPolicy hmethods hpolicy
  · rw [hagain.did_eq hinstalled, hstanding.did_eq hfounded]

/-- A document that stands is the target of a reset as it is stored. -/
theorem standing_of_resetTarget {lookup : Lookup}
    (hstanding : Sight.Standing d.view.lookup)
    (hrun : Runs (resetTarget lookup) d (.ok (account, i)) d') :
    i.Standing ∧ account? d.view.lookup lookup = some account ∧
      Sight.Maps d.view.lookup account (normalizeDid i.did) ∧
      d.view.lookup (Slot.document (normalizeDid i.did)).key =
        some i.toDocument.canonicalBytes := by
  obtain ⟨haccount, did, bytes, document, hmaps, hstored, hread, hi⟩ :=
    resetTarget_ok hrun
  rw [hstanding.normal did account ((hstanding.inverse account did).mp hmaps)]
    at hstored
  obtain ⟨before, hbefore, hbytes, rfl⟩ := hstanding.stands did bytes hstored
  subst hbytes
  obtain ⟨hparse, j, hj, hjstanding, hsame⟩ := hbefore.reread
  obtain rfl := Except.ok.inj (hparse.symm.trans hread)
  obtain rfl := Except.ok.inj (hj.symm.trans hi)
  have hdid : j.did = before.did := congrArg Document.id hsame
  rw [← hsame, ← hdid] at hstored
  rw [← hdid] at hmaps
  exact ⟨hjstanding, haccount, hmaps, hstored⟩

/-- A reset stores a document that stands. -/
theorem standsAt_of_resetSteps {lookup : Lookup} {password : String}
    (hstanding : Sight.Standing d.view.lookup)
    (hrun : Runs (resetSteps now lookup password) d (.ok issued) d') :
    StandsAt (normalizeDid issued.did) issued.document := by
  obtain ⟨⟨account, i⟩, d₁, htarget, hrest⟩ := Runs.bind_ok.mp hrun
  obtain ⟨⟨key, i'⟩, d₂, hwork, hstore⟩ := Runs.bind_ok.mp hrest
  have hbefore := (standing_of_resetTarget hstanding htarget).1
  obtain ⟨a, harranged⟩ := hbefore.arranged
  obtain ⟨hafter, -, -⟩ :=
    standing_of_reissue hbefore harranged (IssueM.onIdentifier_ok hwork)
  obtain ⟨-, hissued⟩ := store_ok hstore
  exact ⟨i', hafter, by rw [hissued], by rw [hissued]⟩

end Registry

/-- A call that manages accounts leaves documents that stand. -/
theorem Call.standing_of_steps {c : Call} {answer : Answer} {d d' : Desk}
    (hstanding : Sight.Standing d.view.lookup) (hmanages : c.Manages)
    (hrun : Runs c.steps d (.ok answer) d') :
    Sight.Standing d'.view.lookup := by
  have hrooted := Call.rooted_of_steps hstanding.toRooted hrun
  obtain ⟨changes, heffect, hchanged⟩ := c.changed_of_steps hrun
  refine ⟨hrooted, fun did bytes hbytes => ?_, ?_⟩
  · rw [hchanged.lookup] at hbytes
    rcases Sight.mem_of_after hbytes with hkept | hstored
    · exact hstanding.stands did bytes hkept
    · obtain ⟨issued, rfl, rfl, rfl⟩ := Call.document_of_effect heffect hstored
      cases c with
      | create now account password keys =>
          obtain ⟨doc, hsteps, hdoc⟩ := Runs.map_ok.mp hrun
          cases hdoc
          exact standsAt_of_createSteps hsteps
      | reset now lookup password =>
          obtain ⟨doc, hsteps, hdoc⟩ := Runs.map_ok.mp hrun
          cases hdoc
          exact standsAt_of_resetSteps hstanding hsteps
      | updatePassword account old new => exact heffect.elim
      | saveIndex account did => exact heffect.elim
  · rw [hchanged.lookup]
    exact hstanding.present.of_effect hstanding.toPaired hmanages heffect

/-- Whatever calls were made, every stored document stands. -/
theorem Reached.standing {start d : Desk} {events : List Event}
    (hclosed : start.view.pending = none)
    (hempty : start.view.committed = .empty)
    (hreached : Reached start events d) :
    d.view.pending = none ∧ Sight.Standing d.view.committed.get? := by
  induction hreached with
  | start =>
      rw [hempty]
      exact ⟨hclosed, .start⟩
  | @call events d d' c r _ hmanages hrun ih =>
      obtain ⟨hended, hstanding⟩ := ih
      refine ⟨c.pending_of_run hended hrun, ?_⟩
      refine c.committed_kept hended hstanding
        (fun _ _ _ hbefore hsteps => ?_) hrun
      exact Call.standing_of_steps hbefore hmanages hsteps

end DidVault
