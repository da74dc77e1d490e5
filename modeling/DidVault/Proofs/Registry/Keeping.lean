import DidVault.Proofs.Registry.Atomic
import DidVault.Proofs.Registry.Holdings

/-!
# What a call makes of what is held

A desk holds what the accounts hold if its records are those of sound holdings,
no two of which share a DID, and no pair that is still expected founds the DID
of any of them (`Desk.Holds`).  One call keeps this: if it fails, nothing is
held otherwise than before (`Desk.Holds.of_failed`), and if it succeeds, one
account has a new holding (`Desk.Holds.of_create`, `Desk.Holds.of_reset`,
`Desk.Holds.of_updatePassword`).
-/

namespace DidVault

open DeskM Registry

/-- The committed records are those of the holdings, and the supply of keys goes
with them. -/
structure Desk.Holds (d : Desk) (held : Holdings) : Prop where
  closed : d.view.pending = none
  records : Represents held d.view.committed.get?
  sound : ∀ ⦃account h⦄, held account = some h → h.Sound
  separate : Separate held
  fresh : ∀ ⦃account h pair⦄, held account = some h → d.Expects pair →
    didOfKey pair.publicPem ≠ h.did
  distinct : d.Distinct
  readable : d.Readable

/-- The pair is the own key that an account holds, or one that no account holds
and that is not expected any more at the desk. -/
structure Desk.Suits (d : Desk) (held : Holdings) (look : Sight)
    (account : String) (own : KeyPair) : Prop where
  reload : KeyPair.ofPrivatePem own.privatePem = some own
  stored : ∀ value, look (Slot.spaceKey account).key = some value →
    value = Utf8.encode own.privatePem
  same : ∀ k, held account = some k → k.did = didOfKey own.publicPem
  unique : ∀ other k, held other = some k → k.did = didOfKey own.publicPem →
    other = account
  fresh : ∀ pair, d.Expects pair →
    didOfKey pair.publicPem ≠ didOfKey own.publicPem

variable {d d' : Desk} {held : Holdings} {h : Holding} {account : String}

/-- An own key that suits the desk suits it also when more was spent. -/
theorem Desk.Suits.spent {look : Sight} {own : KeyPair}
    (hsuits : d.Suits held look account own) (hspent : d.Spent d') :
    d'.Suits held look account own :=
  { hsuits with fresh := fun pair hpair =>
    hsuits.fresh pair (hspent.expects hpair) }

namespace Desk.Holds

/-- A desk without records holds nothing. -/
theorem empty (hclosed : d.view.pending = none)
    (hempty : d.view.committed = .empty) (hdistinct : d.Distinct)
    (hreadable : d.Readable) :
    d.Holds fun _ => none where
  closed := hclosed
  records := by
    rw [hempty]
    exact represents_empty
  sound _ _ hheld := nomatch hheld
  separate _ _ _ _ hheld := nomatch hheld
  fresh _ _ _ hheld := nomatch hheld
  distinct := hdistinct
  readable := hreadable

/-- Using the supply up does not matter as long as the records stay as they
are. -/
theorem spent (hholds : d.Holds held) (hspent : d.Spent d')
    (hclosed : d'.view.pending = none)
    (hrecords : d'.view.committed = d.view.committed) : d'.Holds held where
  closed := hclosed
  records := by
    rw [hrecords]
    exact hholds.records
  sound := hholds.sound
  separate := hholds.separate
  fresh _ _ _ hheld hpair := hholds.fresh hheld (hspent.expects hpair)
  distinct := hspent.distinct hholds.distinct
  readable := hspent.readable hholds.readable

/-- A new holding of an account has the DID that the account had, or one that is
used up. -/
theorem update (hholds : d.Holds held) (hspent : d.Spent d')
    (hclosed : d'.view.pending = none)
    (hrecords : d'.view.committed.get? =
      Sight.after d.view.committed.get? (h.records account))
    (hsound : h.Sound) (hsame : ∀ k, held account = some k → k.did = h.did)
    (hunique : ∀ other k, held other = some k → k.did = h.did → other = account)
    (hfresh : ∀ pair, d'.Expects pair → didOfKey pair.publicPem ≠ h.did) :
    d'.Holds (Function.update held account (some h)) where
  closed := hclosed
  records := by
    rw [hrecords]
    exact hholds.records.update hsame hunique
  sound other k hother := by
    by_cases hsame : other = account
    · subst hsame
      rw [Function.update_self] at hother
      cases hother
      exact hsound
    · rw [Function.update_of_ne hsame] at hother
      exact hholds.sound hother
  separate first second k l hfirst hsecond hdid := by
    by_cases heq₁ : first = account
    · subst heq₁
      rw [Function.update_self] at hfirst
      cases hfirst
      by_cases heq₂ : second = first
      · exact heq₂
      · rw [Function.update_of_ne heq₂] at hsecond
        exact hunique second l hsecond hdid
    · rw [Function.update_of_ne heq₁] at hfirst
      by_cases heq₂ : second = account
      · subst heq₂
        rw [Function.update_self] at hsecond
        cases hsecond
        exact (hunique first k hfirst hdid.symm).symm
      · rw [Function.update_of_ne heq₂] at hsecond
        exact hholds.separate hfirst hsecond hdid
  fresh other k pair hother hpair := by
    by_cases hsame : other = account
    · subst hsame
      rw [Function.update_self] at hother
      cases hother
      exact hfresh pair hpair
    · rw [Function.update_of_ne hsame] at hother
      exact hholds.fresh hother (hspent.expects hpair)
  distinct := hspent.distinct hholds.distinct
  readable := hspent.readable hholds.readable

/-- The own key that an account holds suits it. -/
theorem suits (hholds : d.Holds held) (hheld : held account = some h) :
    d.Suits held d.view.committed.get? account h.own where
  reload := (hholds.sound hheld).reload
  stored value hvalue := by
    obtain ⟨hstored, -⟩ := hholds.records.of_held hheld
    exact Option.some.inj (hvalue.symm.trans hstored)
  same k hk := by
    obtain rfl := Option.some.inj (hheld.symm.trans hk)
    exact (hholds.sound hheld).founded
  unique other k hk hdid :=
    hholds.separate hheld hk (hdid.trans (hholds.sound hheld).founded.symm)
  fresh pair hpair := by
    rw [← (hholds.sound hheld).founded]
    exact hholds.fresh hheld hpair

/-- The own key that an account is given suits it. -/
theorem suits_of_spaceKey {own : KeyPair} (hholds : d.Holds held)
    (hrun : Runs (Custody.spaceKey account) { d with view := d.view.begin }
      (.ok own) d') :
    d'.Suits held d.view.committed.get? account own := by
  have hspent : d.Spent d' :=
    (Spent.other d _ _).trans (spends.spaceKey account hrun)
  rcases (Custody.spaceKey_ok hrun).2 with ⟨pem, hlook, hpair, -⟩
    | ⟨habsent, v, d₂, htake, hd'⟩
  · obtain ⟨h, hheld, hpem⟩ := hholds.records.holder_of_spaceKey hlook
    rw [Utf8.encode_injective hpem, (hholds.sound hheld).reload] at hpair
    rw [← Option.some.inj hpair]
    exact (hholds.suits hheld).spent hspent
  · have htaken := expects_of_takeOrMake htake
    have hexpected : d.Expects own := htaken
    have hnone : ∀ value,
        d.view.committed.get? (Slot.spaceKey account).key ≠ some value := by
      intro value hvalue
      cases habsent.symm.trans hvalue
    refine ⟨hholds.readable hexpected, fun value hvalue =>
      absurd hvalue (hnone value), ?_, ?_, ?_⟩
    · intro k hk
      obtain ⟨hstored, -⟩ := hholds.records.of_held hk
      exact absurd hstored (hnone _)
    · intro other k hk hdid
      exact absurd hdid.symm (hholds.fresh hk hexpected)
    · intro pair hother
      have hsame : d.Spent { d with view := v } := Spent.other d v d.entropy
      rw [hd'] at hother
      exact (distinct_of_takeOrMake (hsame.distinct hholds.distinct) htake
        hother).symm

/-- A call that fails leaves what is held. -/
theorem of_failed {e : Error} (hholds : d.Holds held) (c : Call)
    (hrun : Runs c.run d (.error e) d') : d'.Holds held := by
  have hspent := c.spends_run hrun
  obtain ⟨d₁, hsteps, rfl⟩ := (Call.run_of_closed c hholds.closed).mp hrun
  have hkept := c.committed_of_steps rfl hsteps
  exact hholds.spent hspent rfl hkept

end Desk.Holds

/-- A document that is stored of founded methods is valid, read back, and
founded on the same key. -/
theorem document_of_store {i : Identifier} {wrapped : Bytes}
    {issued : IssuedDocument} {pem : String} (hfounded : Founded i.methods pem)
    (hdid : normalizeDid i.did = didOfKey pem)
    (hrun : Runs (store account i wrapped) d (.ok issued) d') :
    issued.wrapped = wrapped ∧ normalizeDid issued.did = didOfKey pem ∧
      ∃ document, Document.parse issued.document = .ok document ∧
        document.validate = .ok () ∧ document.canonicalBytes = issued.document ∧
        normalizeDid document.id = normalizeDid issued.did ∧
        Founded document.methods pem := by
  obtain ⟨hvalid, rfl⟩ := store_ok hrun
  have hread : Document.parse i.toDocument.canonicalBytes = .ok i.toDocument :=
    Document.parse_of_shallow hfounded.shallow
  dsimp only
  exact ⟨rfl, hdid, i.toDocument, hread, hvalid, rfl, rfl, hfounded⟩

/-- The credentials of a new document are founded on the own key of the
account. -/
theorem founded_credentials (now : Timestamp) (own password : KeyPair)
    (binder : BinderKey) (keys : List BinderKey) :
    Founded (credentials now own password binder keys).methods
      own.publicPem := by
  have hrequired :
      Founded (requiredCredentials now own password binder).methods
        own.publicPem := by
    refine Identifier.founded_withPasswordOnDevice ?_
    exact Identifier.founded_withExternal binder
      (Identifier.founded_device now _) nofun
  unfold credentials
  cases BinderKey.passwordOnBinder? keys with
  | none => exact hrequired
  | some key => exact Identifier.founded_withExternal key hrequired nofun

/-- Issuing a new password key does not touch what the DID is founded on. -/
theorem founded_reissued {i : Identifier} {pem : String} (now : Timestamp)
    (password : KeyPair) (hfounded : Founded i.methods pem) :
    Founded (reissued now password i).methods pem :=
  Identifier.founded_withPasswordOnDevice
    (Identifier.founded_removeRecovery hfounded)

/-- What comes behind the account's own key only uses the supply up. -/
theorem spent_of_stored {i : Identifier} {password : String} {key : PasswordKey}
    {issued : IssuedDocument} {entropy : Bytes} {d₁ d₂ : Desk}
    (hdelete : Runs (Custody.delete account) d (.ok ()) d₁)
    (hkey : Runs (Custody.passwordKey account password) d₁ (.ok key) d₂)
    (hstore : Runs (store account i key.wrapped) { d₂ with entropy }
      (.ok issued) d') : d.Spent d' := by
  have hfirst : d.Spent d₁ := spends.records trivial hdelete
  have hsecond : d₁.Spent d₂ := spends.passwordKey account password hkey
  have hthird : d₂.Spent { d₂ with entropy } :=
    Desk.Spent.other d₂ d₂.view entropy
  exact ((hfirst.trans hsecond).trans hthird).trans (spends.store _ _ _ hstore)

namespace Desk.Holds

/-- What is stored with an own key that suits the account is its new holding. -/
theorem issue {own : KeyPair} {issued : IssuedDocument} (hholds : d.Holds held)
    (hspent : d.Spent d')
    (hsuits : d'.Suits held d.view.committed.get? account own)
    (hchanged : d.view.begin.Changed
      (createChanges d.view.begin.lookup account own issued.wrapped
        (normalizeDid issued.did) issued.document) d'.view)
    (hdid : normalizeDid issued.did = didOfKey own.publicPem)
    (hdocument : ∃ document, Document.parse issued.document = .ok document ∧
      document.validate = .ok () ∧ document.canonicalBytes = issued.document ∧
      normalizeDid document.id = normalizeDid issued.did ∧
      Founded document.methods own.publicPem) :
    ({ d' with view := d'.view.commit } : Desk).Holds
      (Function.update held account (some ⟨own, issued.wrapped, issued⟩)) := by
  let h : Holding := ⟨own, issued.wrapped, issued⟩
  have hfounded : h.did = didOfKey own.publicPem := hdid
  have hsame : ∀ k, held account = some k → k.did = h.did := by
    intro k hk
    rw [hfounded]
    exact hsuits.same k hk
  have hunique : ∀ other k, held other = some k → k.did = h.did →
      other = account := by
    intro other k hk hother
    rw [hfounded] at hother
    exact hsuits.unique other k hk hother
  obtain ⟨hprevious, howner⟩ := hholds.records.settled hsame hunique
  have hcommitted : d'.view.commit.committed.get? =
      Sight.after d.view.committed.get? (h.records account) := by
    rw [View.get?_commit, hchanged.lookup, View.lookup_begin]
    exact after_createChanges (h := h) hprevious howner hsuits.stored
  have hclosing := Spent.other d' d'.view.commit d'.entropy
  refine hholds.update (hspent.trans hclosing) rfl hcommitted
    ⟨hsuits.reload, hdid, hdocument⟩ hsame hunique ?_
  intro pair hpair
  rw [hfounded]
  exact hsuits.fresh pair hpair

/-- A creation that succeeds gives its account a holding. -/
theorem of_create {now : Timestamp} {password : String} {keys : List BinderKey}
    {answer : Answer} (hholds : d.Holds held)
    (hrun : Runs (Call.create now account password keys).run d
      (.ok answer) d') :
    ∃ h, answer = .issued h.issued ∧
      d'.Holds (Function.update held account (some h)) := by
  obtain ⟨d₁, hmapped, rfl⟩ := (Call.run_of_closed _ hholds.closed).mp hrun
  have hspent : d.Spent d₁ := (Spent.other d _ _).trans (spends.steps _ hmapped)
  obtain ⟨issued, hsteps, hanswer⟩ := Runs.map_ok.mp hmapped
  obtain ⟨own, key, binder, policy, d₂, d₃, d₄, hown, hdelete, hkey, -,
      hpolicy, hstore⟩ :=
    createSteps_ok hsteps
  have hfounded :=
    Identifier.founded_installPolicy (d₄.entropy.take Identifier.seedLength)
      (founded_credentials now own key.pair binder keys)
        (Identifier.recoveryPolicy_ok hpolicy)
  obtain ⟨-, hdid, hdocument⟩ :=
    document_of_store hfounded (Identifier.normalizeDid_did hfounded) hstore
  have hsuits :=
    (hholds.suits_of_spaceKey hown).spent (spent_of_stored hdelete hkey hstore)
  have hchanged :=
    changed_of_created hown (changed_of_stored hdelete hkey hstore)
  exact ⟨⟨own, issued.wrapped, issued⟩, hanswer,
    hholds.issue hspent hsuits hchanged hdid hdocument⟩

/-- The document that a new password key is issued on is the one that the
account holds. -/
theorem founded_target {did : String} {bytes : Bytes} {document : Document}
    {i : Identifier} (hholds : d.Holds held) (hheld : held account = some h)
    (hdid : Utf8.encode did = Utf8.encode h.did)
    (hstored : d.view.committed.get? (Slot.document (normalizeDid did)).key =
      some bytes)
    (hread : Document.parse bytes = .ok document)
    (hi : Identifier.ofDocument document = .ok i) :
    Founded i.methods h.own.publicPem := by
  have hsame : normalizeDid did = h.did := by
    rw [Utf8.encode_injective hdid, Holding.did, normalizeDid_normalizeDid]
  obtain ⟨-, hbytes, -⟩ := hholds.records.of_held hheld
  rw [hsame] at hstored
  obtain rfl := Option.some.inj (hbytes.symm.trans hstored)
  obtain ⟨parsed, hparsed, -, -, -, hfounded⟩ := (hholds.sound hheld).document
  obtain rfl := Except.ok.inj (hparsed.symm.trans hread)
  rw [Identifier.methods_ofDocument hi]
  exact hfounded

/-- A new password key that is issued gives its account a new holding. -/
theorem of_reset {now : Timestamp} {lookup : Lookup} {password : String}
    {answer : Answer} (hholds : d.Holds held)
    (hrun : Runs (Call.reset now lookup password).run d (.ok answer) d') :
    ∃ account h, account? d.view.committed.get? lookup = some account ∧
      (held account).isSome = true ∧ answer = .issued h.issued ∧
      d'.Holds (Function.update held account (some h)) := by
  obtain ⟨d₁, hmapped, rfl⟩ := (Call.run_of_closed _ hholds.closed).mp hrun
  have hspent : d.Spent d₁ := (Spent.other d _ _).trans (spends.steps _ hmapped)
  obtain ⟨issued, hsteps, hanswer⟩ := Runs.map_ok.mp hmapped
  obtain ⟨account, i, key, policy, d₂, d₃, d₄, htarget, hdelete, hkey,
      hpolicy, hstore⟩ :=
    resetSteps_ok hsteps
  obtain ⟨haccount, did, bytes, document, hindexed, hstored, hread, hi⟩ :=
    resetTarget_ok htarget
  obtain ⟨h, hheld, hvalue⟩ := hholds.records.holder_of_didOf hindexed
  have htargeted := hholds.founded_target hheld hvalue hstored hread hi
  have hfounded :=
    Identifier.founded_installPolicy (d₄.entropy.take Identifier.seedLength)
      (founded_reissued now key.pair htargeted)
        (Identifier.recoveryPolicy_ok hpolicy)
  obtain ⟨-, hdid, hdocument⟩ :=
    document_of_store hfounded (Identifier.normalizeDid_did hfounded) hstore
  have hsuits := (hholds.suits hheld).spent hspent
  obtain ⟨hkey', -⟩ := hholds.records.of_held hheld
  have hown : d.view.begin.lookup (Slot.spaceKey account).key =
      some (Utf8.encode h.own.privatePem) := hkey'
  have hkept := (makes_resetTarget lookup).ok htarget
  have hrest := changed_of_stored hdelete hkey hstore
  rw [hkept.lookup] at hrest
  have hchanged :
      d.view.begin.Changed
        (createChanges d.view.begin.lookup account h.own issued.wrapped
          (normalizeDid issued.did) issued.document) d₁.view := by
    rw [createChanges_of_stored h.own hown]
    exact hkept.trans hrest
  exact ⟨account, ⟨h.own, issued.wrapped, issued⟩, haccount,
    Option.isSome_of_eq_some hheld, hanswer,
    hholds.issue hspent hsuits hchanged hdid hdocument⟩

/-- A password key that is wrapped anew is all that is new in the holding of its
account. -/
theorem of_updatePassword {old new : String} {answer : Answer}
    (hholds : d.Holds held)
    (hrun : Runs (Call.updatePassword account old new).run d (.ok answer) d') :
    ∃ h wrapped, held account = some h ∧ answer = .rewrapped wrapped ∧
      d'.Holds (Function.update held account (some { h with wrapped })) := by
  have hspent := Call.spends_run _ hrun
  obtain ⟨d₁, hmapped, rfl⟩ := (Call.run_of_closed _ hholds.closed).mp hrun
  obtain ⟨wrapped, hsteps, hanswer⟩ := Runs.map_ok.mp hmapped
  obtain ⟨found, -, -, hfound, -⟩ := Custody.opened_of_rotate hsteps
  obtain ⟨h, hheld, -⟩ := hholds.records.holder_of_passwordKey hfound
  have hstored : ∀ c ∈ h.lasting account,
      d.view.committed.get? c.1.key = c.2 := by
    obtain ⟨hspace, hdocument, hdid, howner, -⟩ := hholds.records.of_held hheld
    intro c hc
    simp only [Holding.lasting, List.mem_cons, List.not_mem_nil, or_false] at hc
    rcases hc with rfl | rfl | rfl | rfl
    · exact hspace
    · exact hdocument
    · exact hdid
    · exact howner
  have hcommitted : d₁.view.commit.committed.get? =
      Sight.after d.view.committed.get?
        (({ h with wrapped } : Holding).records account) := by
    rw [View.get?_commit, (Custody.rotate_ok hsteps).lookup, View.lookup_begin]
    exact after_rewrapped hstored wrapped
  have hsuits := hholds.suits hheld
  have hfounded := (hholds.sound hheld).founded
  refine ⟨h, wrapped, hheld, hanswer,
    hholds.update hspent rfl hcommitted ?_ ?_ ?_ ?_⟩
  · exact ⟨(hholds.sound hheld).reload, hfounded, (hholds.sound hheld).document⟩
  · intro k hk
    exact (hsuits.same k hk).trans hfounded.symm
  · intro other k hk hdid
    exact hholds.separate hheld hk hdid
  · intro pair hpair
    have hother := hholds.fresh hheld (hspent.expects hpair)
    exact hother

end Desk.Holds

end DidVault
