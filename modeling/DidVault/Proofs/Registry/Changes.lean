import DidVault.Proofs.Issuing

/-!
# What calls of the registry change

The calls that write are taken as data (`Call`), so that a statement can be made
of all of them.  Each one runs its steps as a whole (`Call.run`).  What the
steps change follows one plan (`Call.Plan`), of which they leave a beginning
when they fail: first the account's own key, if it has none, then its password
key, the document, and the index.
-/

namespace DidVault.Registry

open DeskM

variable {α : Type} {d d' : Desk} {account password : String} {i : Identifier}
  {wrapped : Bytes}

/-- The slot of the document that an account loses by being indexed under
another DID. -/
def staleDocument (look : Sight) (account did : String) : Option Slot :=
  (stale (look.text? (.didOf account)) did).map fun previous =>
    .document (normalizeDid previous)

/-- What storing a document changes. -/
def storeChanges (look : Sight) (account did : String) (canonical : Bytes) :
    List Change :=
  let first :=
    removal (staleDocument look account did) ++
      [(.document did, some canonical)]
  first ++ indexChanges (look.after first) account did

/-- Storing, with the removal as a step of its own. -/
theorem store_eq (account : String) (i : Identifier) (wrapped : Bytes) :
    store account i wrapped =
      (do
        ofDid i.toDocument.validate
        let previous ← records (.didOf? account)
        records (.deleteAny
          ((stale previous (normalizeDid i.did)).map fun p =>
            .document (normalizeDid p)))
        records (.putDocument i.did i.toDocument.canonicalBytes)
        records (.saveIndex account i.did)
        return { did := i.did, document := i.toDocument.canonicalBytes,
                 wrapped }) := by
  refine bind_congr fun _ => ?_
  exact RecordsM.bind_stale (fun s => records (.deleteAny s))
    (fun p => .document (normalizeDid p)) (normalizeDid i.did) rfl
      (fun _ => rfl) rfl

/-- Checks a document, and removes the one that the account had under another
DID. -/
def dropDocument (account : String) (i : Identifier) : DeskM Unit := do
  ofDid i.toDocument.validate
  let previous ← records (.didOf? account)
  records (.deleteAny
    ((stale previous (normalizeDid i.did)).map fun p =>
      .document (normalizeDid p)))

/-- Behind the check and the removal the document is written and indexed. -/
theorem store_drops (account : String) (i : Identifier) (wrapped : Bytes) :
    store account i wrapped =
      (do
        dropDocument account i
        records (.putDocument i.did i.toDocument.canonicalBytes)
        records (.saveIndex account i.did)
        return { did := i.did, document := i.toDocument.canonicalBytes,
                 wrapped }) := by
  simp only [store_eq, dropDocument, bind_assoc]

/-- The stale document is removed as a whole or not at all. -/
theorem atOnce_dropDocument (account : String) (i : Identifier) :
    MakesAtOnce Desk.view (dropDocument account i) d
      (removal (staleDocument d.view.lookup account (normalizeDid i.did))) := by
  have hvalid := (leavesView_ofDid i.toDocument.validate).makes d
  refine .bind hvalid fun _ d₁ hchecked => ?_
  have hlook₁ := (hvalid.ok hchecked).lookup
  have hread : Makes Desk.view (records (.didOf? account)) d₁ [] :=
    makes_records (RecordsM.makes_readText? (s := .didOf account) _)
  refine .bind hread fun previous d₂ hprevious => ?_
  obtain ⟨v, hfound, -⟩ := records_ok hprevious
  have hfound :=
    Sight.text?_eq (RecordsM.readText?_ok (s := .didOf account) hfound)
  rw [hlook₁, Sight.after_nil] at hfound
  rw [staleDocument, hfound]
  exact atOnce_records (RecordsM.atOnce_deleteAny _)

/-- A document is written as a whole or not at all. -/
theorem atOnce_putDocument (did : String) (canonical : Bytes) :
    MakesAtOnce Desk.view (records (.putDocument did canonical)) d
      [(.document (normalizeDid did), some canonical)] :=
  atOnce_records (RecordsM.atOnce_put (s := .document (normalizeDid did)) _)

/-- Storing makes its changes in their order: the removal of a stale document,
the new one, and the index. -/
theorem makes_store (account : String) (i : Identifier) (wrapped : Bytes) :
    Makes Desk.view (store account i wrapped) d
      (storeChanges d.view.lookup account (normalizeDid i.did)
        i.toDocument.canonicalBytes) := by
  rw [store_drops, storeChanges, List.append_assoc]
  have hdrop := atOnce_dropDocument (d := d) account i
  refine hdrop.makes.bind fun _ d₁ hdropped => ?_
  have hlook₁ := (hdrop.ok hdropped).lookup
  have hput := atOnce_putDocument (d := d₁) i.did i.toDocument.canonicalBytes
  refine hput.makes.bind fun _ d₂ hdone => ?_
  have hlook₂ := (hput.ok hdone).lookup
  rw [hlook₁, ← Sight.after_append] at hlook₂
  rw [← hlook₂]
  exact (makes_records (RecordsM.makes_saveIndex account i.did)).bind_nil
    fun _ _ _ => .pure _

/-- A document that is stored is valid; it is returned as it is stored. -/
theorem store_ok {issued : IssuedDocument}
    (hrun : Runs (store account i wrapped) d (.ok issued) d') :
    i.toDocument.validate = .ok () ∧
      issued =
        { did := i.did, document := i.toDocument.canonicalBytes, wrapped } := by
  rw [store_eq] at hrun
  obtain ⟨u, d₁, hvalid, hrest⟩ := Runs.bind_ok.mp hrun
  obtain ⟨previous, d₂, -, hrest⟩ := Runs.bind_ok.mp hrest
  obtain ⟨u₂, d₃, -, hrest⟩ := Runs.bind_ok.mp hrest
  obtain ⟨u₃, d₄, -, hrest⟩ := Runs.bind_ok.mp hrest
  obtain ⟨u₄, d₅, -, hdone⟩ := Runs.bind_ok.mp hrest
  obtain ⟨h, -⟩ := Runs.pure_iff.mp hdone
  obtain ⟨hresult, -⟩ := ofDid_iff.mp hvalid
  refine ⟨?_, Except.ok.inj h⟩
  cases hcheck : i.toDocument.validate with
  | ok u => rfl
  | error fault =>
      rw [hcheck] at hresult
      cases hresult

/-- What a new password key changes. -/
def resetChanges (look : Sight) (account : String) (wrapped : Bytes)
    (did : String) (canonical : Bytes) : List Change :=
  let keys := Custody.passwordChanges account wrapped
  keys ++ storeChanges (look.after keys) account did canonical

/-- What creating a document changes. -/
def createChanges (look : Sight) (account : String) (own : KeyPair)
    (wrapped : Bytes) (did : String) (canonical : Bytes) : List Change :=
  let first := Custody.ownChanges look account own
  first ++ resetChanges (look.after first) account wrapped did canonical

/-- What calls of the registry work through inside their transaction. -/
def createSteps (now : Timestamp) (account password : String)
    (keys : List BinderKey) : DeskM IssuedDocument := do
  let (key, i) ← IssueM.onIdentifier .new (issueAll now account password keys)
  store account i key.wrapped

/-- What a call for a new password key looks up: the account, and the identifier
of its document. -/
def resetTarget (lookup : Lookup) : DeskM (String × Identifier) := do
  let account ← resolveAccount lookup
  let did ← resolveDid (.account account)
  let document ← readDocument (← documentOf did)
  let i ← ofDid (Identifier.ofDocument document)
  return (account, i)

/-- What a call for a new password key works through inside its transaction. -/
def resetSteps (now : Timestamp) (lookup : Lookup) (password : String) :
    DeskM IssuedDocument := do
  let (account, i) ← resetTarget lookup
  let (key, i) ← IssueM.onIdentifier i (reissuePassword now account password)
  store account i key.wrapped

/-- A creation is its steps as a whole. -/
theorem create_eq (now : Timestamp) (account password : String)
    (keys : List BinderKey) :
    create now account password keys =
      transactionally (createSteps now account password keys) := rfl

/-- A reset is its steps as a whole, which begin with finding the document. -/
theorem reset_eq (now : Timestamp) (lookup : Lookup) (password : String) :
    reset now lookup password =
      transactionally (resetSteps now lookup password) := by
  simp only [reset, resetSteps, resetTarget, bind_assoc, pure_bind]

/-- The credentials that every new document has. -/
def requiredCredentials (now : Timestamp) (own password : KeyPair)
    (binder : BinderKey) : Identifier :=
  Issuing.withPasswordOnDevice now password.publicPem
    (Issuing.withExternal now .binder binder
      (Identifier.new.published .device .rsa own.publicPem
        (Issuing.baseQuery now .device) none))

/-- The credentials of a new document, before the recovery policy is
composed. -/
def credentials (now : Timestamp) (own password : KeyPair) (binder : BinderKey)
    (keys : List BinderKey) : Identifier :=
  match BinderKey.passwordOnBinder? keys with
  | some key =>
    Issuing.withExternal now .passwordOnBinder key
      (requiredCredentials now own password binder)
  | none => requiredCredentials now own password binder

/-- A new document has the account's own key, the client's key, a new password
key and the client's password key, in this order, and a policy over them. -/
theorem issueAll_ok {now : Timestamp} {keys : List BinderKey}
    {key : PasswordKey} {i' : Identifier}
    (hrun : Runs (issueAll now account password keys) (.new, d) (.ok key)
      (i', d')) :
    ∃ own d₁ d₂ d₃ binder policy,
      Runs (Custody.spaceKey account) d (.ok own) d₁ ∧
      Runs (Custody.delete account) d₁ (.ok ()) d₂ ∧
      Runs (Custody.passwordKey account password) d₂ (.ok key) d₃ ∧
      d' = { d₃ with entropy := d₃.entropy.drop Identifier.seedLength } ∧
      BinderKey.binder? keys = some binder ∧
      (credentials now own key.pair binder keys).Composes policy ∧
      i' = (credentials now own key.pair binder keys).installPolicy policy
        (d₃.entropy.take Identifier.seedLength) := by
  obtain ⟨device, s₁, hdevice, hrest⟩ := Runs.bind_ok.mp hrun
  obtain ⟨own, d₁, hown, rfl⟩ := Issuing.addDevice_ok hdevice
  obtain ⟨issued, s₂, hbinder, hrest⟩ := Runs.bind_ok.mp hrest
  obtain ⟨binder, hfound, rfl⟩ := Issuing.addBinder_ok hbinder
  obtain ⟨answer, s₃, hpassword, hrest⟩ := Runs.bind_ok.mp hrest
  obtain ⟨hi₃, d₂, hdelete, hkey⟩ := Issuing.addPasswordOnDevice_ok hpassword
  obtain ⟨issued?, s₄, hclient, hrest⟩ := Runs.bind_ok.mp hrest
  have hs₄ := Issuing.addPasswordOnBinder_ok (i := s₃.1) (d := s₃.2) hclient
  obtain ⟨id, s₅, hcompose, hdone⟩ := Runs.bind_ok.mp hrest
  obtain ⟨h, hs₅⟩ := Runs.pure_iff.mp hdone
  cases h
  have hi₄ : s₄.1 = credentials now own answer.2.pair binder keys := by
    rw [hs₄, hi₃]
    rfl
  have hd₄ : s₄.2 = s₃.2 := by rw [hs₄]
  obtain ⟨policy, hpolicy, hs⟩ :=
    Issuing.composeRecovery_ok (i := s₄.1) (d := s₄.2) hcompose
  rw [hi₄] at hpolicy
  rw [← hs₅, hi₄, hd₄] at hs
  cases hs
  exact ⟨own, d₁, d₂, s₃.2, binder, policy, hown, hdelete, hkey, rfl, hfound,
    hpolicy, rfl⟩

/-- What is issued once the account's own key is there. -/
def issueRest (now : Timestamp) (account password : String)
    (keys : List BinderKey) (own : KeyPair) : IssueM PasswordKey := do
  let _ ← Issuing.publish .device .rsa own.publicPem
      (Issuing.baseQuery now .device) none
  let _ ← Issuing.addBinder now keys
  let (_, key) ← Issuing.addPasswordOnDevice now account password
  let _ ← Issuing.addPasswordOnBinder now keys
  let _ ← Issuing.composeRecovery
  return key

/-- Issuing the credentials of a new document begins with the account's own
key. -/
theorem issueAll_eq (now : Timestamp) (account password : String)
    (keys : List BinderKey) :
    issueAll now account password keys =
      IssueM.atDesk (Custody.spaceKey account) >>=
        issueRest now account password keys := by
  simp only [issueAll, Issuing.addDevice, bind_assoc]
  rfl

/-- What is issued behind the account's own key replaces the password key. -/
theorem exists_makes_issueRest {now : Timestamp} {keys : List BinderKey}
    {own : KeyPair} {s : Identifier × Desk} :
    ∃ wrapped, Makes IssueM.view (issueRest now account password keys own) s
      (Custody.passwordChanges account wrapped) := by
  have hdevice : Makes IssueM.view (Issuing.publish .device .rsa own.publicPem
      (Issuing.baseQuery now .device) none) s [] := Issuing.makes_publish
  refine hdevice.bind_exists fun _ s₁ _ => ?_
  have hbinder : Makes IssueM.view (Issuing.addBinder now keys) s₁ [] :=
    Issuing.makes_addBinder
  refine hbinder.bind_exists fun _ s₂ _ => ?_
  obtain ⟨wrapped, hpassword⟩ : ∃ wrapped,
      Makes IssueM.view (Issuing.addPasswordOnDevice now account password) s₂
        (Custody.passwordChanges account wrapped) :=
          Issuing.exists_makes_addPasswordOnDevice
  refine ⟨wrapped, hpassword.bind_nil fun _ s₃ _ => ?_⟩
  refine Issuing.makes_addPasswordOnBinder.bind_nil fun _ s₄ _ => ?_
  exact Issuing.makes_composeRecovery.bind_nil fun _ _ _ => .pure _

/-- An identifier with a new password key, without its recovery policy. -/
def reissued (now : Timestamp) (password : KeyPair) (i : Identifier) :
    Identifier :=
  Issuing.withPasswordOnDevice now password.publicPem
    (i.removeFragment Names.recoveryFragment).1

/-- Issuing a new password key replaces it and composes the policy anew. -/
theorem reissuePassword_ok {now : Timestamp} {key : PasswordKey}
    {i' : Identifier}
    (hrun : Runs (reissuePassword now account password) (i, d) (.ok key)
      (i', d')) :
    ∃ d₁ d₂ policy,
      Runs (Custody.delete account) d (.ok ()) d₁ ∧
      Runs (Custody.passwordKey account password) d₁ (.ok key) d₂ ∧
      d' = { d₂ with entropy := d₂.entropy.drop Identifier.seedLength } ∧
      (reissued now key.pair i).Composes policy ∧
      i' = (reissued now key.pair i).installPolicy policy
        (d₂.entropy.take Identifier.seedLength) := by
  unfold reissuePassword at hrun
  rw [IssueM.identifier_bind, IssueM.setIdentifier_bind] at hrun
  obtain ⟨answer, s₁, hpassword, hrest⟩ := Runs.bind_ok.mp hrun
  obtain ⟨hi₁, d₁, hdelete, hkey⟩ := Issuing.addPasswordOnDevice_ok hpassword
  obtain ⟨id, s₂, hcompose, hdone⟩ := Runs.bind_ok.mp hrest
  obtain ⟨h, hs₂⟩ := Runs.pure_iff.mp hdone
  cases h
  obtain ⟨policy, hpolicy, hs⟩ :=
    Issuing.composeRecovery_ok (i := s₁.1) (d := s₁.2) hcompose
  rw [hi₁] at hpolicy
  rw [← hs₂, hi₁] at hs
  cases hs
  exact ⟨d₁, s₁.2, policy, hdelete, hkey, rfl, hpolicy, rfl⟩

/-- Issuing a new password key replaces the old one. -/
theorem exists_makes_reissuePassword {now : Timestamp} {s : Identifier × Desk} :
    ∃ wrapped, Makes IssueM.view (reissuePassword now account password) s
      (Custody.passwordChanges account wrapped) := by
  refine IssueM.makes_identifier.bind_exists fun j s₁ _ => ?_
  refine (IssueM.makes_setIdentifier _).bind_exists fun _ s₂ _ => ?_
  obtain ⟨wrapped, hpassword⟩ : ∃ wrapped,
      Makes IssueM.view (Issuing.addPasswordOnDevice now account password) s₂
        (Custody.passwordChanges account wrapped) :=
          Issuing.exists_makes_addPasswordOnDevice
  refine ⟨wrapped, hpassword.bind_nil fun _ s₃ _ => ?_⟩
  exact Issuing.makes_composeRecovery.bind_nil fun _ _ _ => .pure _

/-- A new password key and a document that is stored then. -/
theorem changed_of_stored {key : PasswordKey} {issued : IssuedDocument}
    {entropy : Bytes} {d₁ d₂ : Desk}
    (hdelete : Runs (Custody.delete account) d (.ok ()) d₁)
    (hkey : Runs (Custody.passwordKey account password) d₁ (.ok key) d₂)
    (hstore : Runs (store account i key.wrapped) { d₂ with entropy }
      (.ok issued) d') :
    d.view.Changed (resetChanges d.view.lookup account issued.wrapped
      (normalizeDid issued.did) issued.document) d'.view := by
  have hkeys := Custody.changed_of_replace hdelete hkey
  obtain ⟨-, rfl⟩ := store_ok hstore
  have hstored := (makes_store account i key.wrapped).ok hstore
  dsimp only at hstored
  rw [hkeys.lookup] at hstored
  simp only [resetChanges]
  exact hkeys.trans hstored

/-- A document is created from credentials that were issued, and stored. -/
theorem createSteps_ok {now : Timestamp} {keys : List BinderKey}
    {issued : IssuedDocument}
    (hrun : Runs (createSteps now account password keys) d (.ok issued) d') :
    ∃ own key binder policy d₁ d₂ d₃,
      Runs (Custody.spaceKey account) d (.ok own) d₁ ∧
      Runs (Custody.delete account) d₁ (.ok ()) d₂ ∧
      Runs (Custody.passwordKey account password) d₂ (.ok key) d₃ ∧
      BinderKey.binder? keys = some binder ∧
      (credentials now own key.pair binder keys).Composes policy ∧
      Runs (store account
          ((credentials now own key.pair binder keys).installPolicy policy
            (d₃.entropy.take Identifier.seedLength)) key.wrapped)
        { d₃ with entropy := d₃.entropy.drop Identifier.seedLength }
          (.ok issued) d' := by
  obtain ⟨⟨key, i⟩, d₄, hissue, hstore⟩ := Runs.bind_ok.mp hrun
  obtain ⟨own, d₁, d₂, d₃, binder, policy, hown, hdelete, hkey, rfl, hbinder,
      hpolicy, rfl⟩ :=
    issueAll_ok (IssueM.onIdentifier_ok hissue)
  exact ⟨own, key, binder, policy, d₁, d₂, d₃, hown, hdelete, hkey, hbinder,
    hpolicy, hstore⟩

/-- The account's own key comes before what is stored with a new password
key. -/
theorem changed_of_created {own : KeyPair} {issued : IssuedDocument} {d₁ : Desk}
    (hown : Runs (Custody.spaceKey account) d (.ok own) d₁)
    (hrest : d₁.view.Changed (resetChanges d₁.view.lookup account issued.wrapped
      (normalizeDid issued.did) issued.document) d'.view) :
    d.view.Changed (createChanges d.view.lookup account own issued.wrapped
      (normalizeDid issued.did) issued.document) d'.view := by
  have hfirst := (Custody.spaceKey_ok hown).1
  rw [hfirst.lookup] at hrest
  simp only [createChanges]
  exact hfirst.trans hrest

/-- A creation that succeeds makes all of its changes. -/
theorem changed_of_createSteps {now : Timestamp} {keys : List BinderKey}
    {issued : IssuedDocument}
    (hrun : Runs (createSteps now account password keys) d (.ok issued) d') :
    ∃ own, d.view.Changed
      (createChanges d.view.lookup account own issued.wrapped
        (normalizeDid issued.did) issued.document) d'.view := by
  obtain ⟨own, key, binder, policy, d₁, d₂, d₃, hown, hdelete, hkey, -,
      -, hstore⟩ :=
    createSteps_ok hrun
  exact ⟨own, changed_of_created hown (changed_of_stored hdelete hkey hstore)⟩

/-- After issuing comes storing. -/
theorem exists_makes_stored {op : IssueM PasswordKey} {keys : List Change}
    (hop : Makes IssueM.view op (i, d) keys) (account : String) :
    ∃ did canonical, Makes Desk.view
      (IssueM.onIdentifier i op >>= fun answer =>
        store account answer.2 answer.1.wrapped) d
      (keys ++ storeChanges (Sight.after d.view.lookup keys) account did
        canonical) := by
  have hdone := IssueM.makes_onIdentifier hop
  obtain ⟨stored, hall⟩ : ∃ stored : String × Bytes, Makes Desk.view
      (IssueM.onIdentifier i op >>= fun answer =>
        store account answer.2 answer.1.wrapped) d
      (keys ++ storeChanges (Sight.after d.view.lookup keys) account stored.1
        stored.2) := by
    refine hdone.bind_exists fun answer d₁ hrun => ?_
    refine ⟨(normalizeDid answer.2.did, answer.2.toDocument.canonicalBytes), ?_⟩
    have hlook : d₁.view.lookup = Sight.after d.view.lookup keys :=
      (hdone.ok hrun).lookup
    dsimp only
    rw [← hlook]
    exact makes_store account answer.2 answer.1.wrapped
  exact ⟨stored.1, stored.2, hall⟩

/-- What is done for a new document once the account's own key is there. -/
def createRest (now : Timestamp) (account password : String)
    (keys : List BinderKey) (own : KeyPair) : DeskM IssuedDocument := do
  let (key, i) ← IssueM.onIdentifier .new
      (issueRest now account password keys own)
  store account i key.wrapped

/-- The account's own key comes first. -/
theorem createSteps_eq (now : Timestamp) (account password : String)
    (keys : List BinderKey) :
    createSteps now account password keys =
      Custody.spaceKey account >>= createRest now account password keys := by
  rw [createSteps, issueAll_eq, IssueM.onIdentifier_atDesk_bind, bind_assoc]
  rfl

/-- Behind the account's own key a creation makes the changes of a reset. -/
theorem exists_makes_createRest {now : Timestamp} {keys : List BinderKey}
    {own : KeyPair} :
    ∃ wrapped did canonical,
      Makes Desk.view (createRest now account password keys own) d
        (resetChanges d.view.lookup account wrapped did canonical) := by
  obtain ⟨wrapped, hissue⟩ : ∃ wrapped,
      Makes IssueM.view (issueRest now account password keys own) (.new, d)
        (Custody.passwordChanges account wrapped) := exists_makes_issueRest
  obtain ⟨did, canonical, hall⟩ := exists_makes_stored hissue account
  exact ⟨wrapped, did, canonical, hall⟩

/-- A creation makes its changes in their order, as far as it comes. -/
theorem exists_makes_createSteps {now : Timestamp} {keys : List BinderKey} :
    ∃ own wrapped did canonical,
      Makes Desk.view (createSteps now account password keys) d
        (createChanges d.view.lookup account own wrapped did canonical) := by
  have hown : ∃ own : KeyPair, Makes Desk.view (Custody.spaceKey account) d
      (Custody.ownChanges d.view.lookup account own) :=
    Makes.exists_of_ok (fun own d' hrun => (Custody.spaceKey_ok hrun).1)
      fun e d' hrun => Custody.failsClean_spaceKey account hrun
  obtain ⟨own, hown⟩ := hown
  obtain ⟨stored, hall⟩ : ∃ stored : Bytes × String × Bytes,
      Makes Desk.view (createSteps now account password keys) d
        (Custody.ownChanges d.view.lookup account own ++ resetChanges
          (Sight.after d.view.lookup
            (Custody.ownChanges d.view.lookup account own)) account stored.1
              stored.2.1 stored.2.2) := by
    rw [createSteps_eq]
    refine hown.bind_exists fun own' d₁ hrun => ?_
    have hlook : d₁.view.lookup = _ := (hown.ok hrun).lookup
    rw [← hlook]
    obtain ⟨wrapped, did, canonical, hrest⟩ := exists_makes_createRest
    exact ⟨(wrapped, did, canonical), hrest⟩
  exact ⟨own, stored.1, stored.2.1, stored.2.2, hall⟩

/-- The account that a call looks for, as the index has it. -/
def account? (look : Sight) : Lookup → Option String
  | .account account => some account
  | .did did => look.text? (.accountOf (normalizeDid did))

/-- Finding the account changes nothing. -/
theorem makes_resolveAccount (lookup : Lookup) :
    Makes Desk.view (resolveAccount lookup) d [] := by
  cases lookup with
  | account account => exact .pure account
  | did did =>
      have hread : Makes Desk.view (records (.accountOf? did)) d [] :=
        makes_records
          (RecordsM.makes_readText? (s := .accountOf (normalizeDid did)) _)
      refine hread.bind fun found d₁ _ => ?_
      cases found with
      | some account => exact .pure account
      | none => exact .throw _ []

/-- The account that is found is the one that the index has. -/
theorem resolveAccount_ok {lookup : Lookup}
    (hrun : Runs (resolveAccount lookup) d (.ok account) d') :
    account? d.view.lookup lookup = some account := by
  cases lookup with
  | account id =>
      obtain ⟨h, -⟩ := Runs.pure_iff.mp hrun
      cases h
      rfl
  | did did =>
      obtain ⟨found, d₁, hread, hrest⟩ := Runs.bind_ok.mp hrun
      obtain ⟨v, hfound, -⟩ := records_ok hread
      have hlook :=
        RecordsM.readText?_ok (s := .accountOf (normalizeDid did)) hfound
      cases found with
      | none =>
          obtain ⟨h, -⟩ := Runs.throw_iff.mp hrest
          cases h
      | some account' =>
          obtain ⟨h, -⟩ := Runs.pure_iff.mp hrest
          cases h
          exact Sight.text?_eq hlook

/-- Finding the DID changes nothing. -/
theorem makes_resolveDid (lookup : Lookup) :
    Makes Desk.view (resolveDid lookup) d [] := by
  cases lookup with
  | did did => exact .pure _
  | account account =>
      have hread : Makes Desk.view (records (.didOf? account)) d [] :=
        makes_records (RecordsM.makes_readText? (s := .didOf account) _)
      refine hread.bind fun found d₁ _ => ?_
      cases found with
      | some did => exact .pure did
      | none => exact .throw _ []

/-- The DID that is found is the one that the index has. -/
theorem resolveDid_ok {did : String}
    (hrun : Runs (resolveDid (.account account)) d (.ok did) d') :
    d.view.lookup (Slot.didOf account).key = some (Utf8.encode did) := by
  obtain ⟨found, d₁, hread, hrest⟩ := Runs.bind_ok.mp hrun
  obtain ⟨v, hfound, -⟩ := records_ok hread
  have hlook := RecordsM.readText?_ok (s := .didOf account) hfound
  cases found with
  | none =>
      obtain ⟨h, -⟩ := Runs.throw_iff.mp hrest
      cases h
  | some did' =>
      obtain ⟨h, -⟩ := Runs.pure_iff.mp hrest
      cases h
      exact hlook

/-- Looking for a document changes nothing. -/
theorem makes_documentOf (did : String) :
    Makes Desk.view (documentOf did) d [] := by
  have hread : Makes Desk.view (records (.document? did)) d [] :=
    makes_records (RecordsM.makes_read? (s := .document (normalizeDid did)))
  refine hread.bind fun found d₁ _ => ?_
  cases found with
  | some bytes => exact .pure bytes
  | none => exact .throw _ []

/-- The document that is found is the one that is stored. -/
theorem documentOf_ok {did : String} {bytes : Bytes}
    (hrun : Runs (documentOf did) d (.ok bytes) d') :
    d.view.lookup (Slot.document (normalizeDid did)).key = some bytes := by
  obtain ⟨found, d₁, hread, hrest⟩ := Runs.bind_ok.mp hrun
  obtain ⟨v, hfound, -⟩ := records_ok hread
  have hlook := RecordsM.read?_ok (s := .document (normalizeDid did)) hfound
  cases found with
  | none =>
      obtain ⟨h, -⟩ := Runs.throw_iff.mp hrest
      cases h
  | some bytes' =>
      obtain ⟨h, -⟩ := Runs.pure_iff.mp hrest
      cases h
      exact hlook.symm

/-- Parsing a document has no part in the records. -/
theorem leavesView_readDocument (bytes : Bytes) :
    LeavesView (readDocument bytes) := by
  intro d r d' hrun
  unfold readDocument at hrun
  split at hrun
  · rw [(Runs.pure_iff.mp hrun).2]
  · rw [(Runs.throw_iff.mp hrun).2]

/-- Finding the document to work on changes nothing. -/
theorem makes_resetTarget (lookup : Lookup) :
    Makes Desk.view (resetTarget lookup) d [] := by
  refine (makes_resolveAccount lookup).bind fun account d₁ _ => ?_
  refine (makes_resolveDid _).bind fun did d₂ _ => ?_
  refine (makes_documentOf did).bind fun bytes d₃ _ => ?_
  refine ((leavesView_readDocument bytes).makes d₃).bind fun document d₄ _ => ?_
  exact ((leavesView_ofDid _).makes d₄).bind fun i d₅ _ => .pure _

/-- The document that a new password key is issued on is the one that the
account is indexed under. -/
theorem resetTarget_ok {lookup : Lookup}
    (hrun : Runs (resetTarget lookup) d (.ok (account, i)) d') :
    account? d.view.lookup lookup = some account ∧
      ∃ did bytes document,
        d.view.lookup (Slot.didOf account).key = some (Utf8.encode did) ∧
        d.view.lookup (Slot.document (normalizeDid did)).key = some bytes ∧
        Document.parse bytes = .ok document ∧
        Identifier.ofDocument document = .ok i := by
  obtain ⟨found, d₁, haccount, hrest⟩ := Runs.bind_ok.mp hrun
  have hlook₁ := ((makes_resolveAccount lookup).ok haccount).lookup
  obtain ⟨did, d₂, hdid, hrest⟩ := Runs.bind_ok.mp hrest
  have hlook₂ := ((makes_resolveDid _).ok hdid).lookup
  obtain ⟨bytes, d₃, hbytes, hrest⟩ := Runs.bind_ok.mp hrest
  obtain ⟨document, d₄, hread, hrest⟩ := Runs.bind_ok.mp hrest
  obtain ⟨i', d₅, hi, hdone⟩ := Runs.bind_ok.mp hrest
  obtain ⟨h, -⟩ := Runs.pure_iff.mp hdone
  cases h
  have hindexed := resolveDid_ok hdid
  have hstored := documentOf_ok hbytes
  rw [hlook₂] at hstored
  rw [hlook₁] at hindexed hstored
  refine ⟨resolveAccount_ok haccount, did, bytes, document, hindexed,
    hstored, ?_, ?_⟩
  · unfold readDocument at hread
    split at hread
    · next parsed hparsed =>
        obtain ⟨h, -⟩ := Runs.pure_iff.mp hread
        cases h
        exact hparsed
    · obtain ⟨h, -⟩ := Runs.throw_iff.mp hread
      cases h
  · obtain ⟨h, -⟩ := ofDid_iff.mp hi
    cases hx : Identifier.ofDocument document with
    | ok j =>
        rw [hx] at h
        cases h
        rfl
    | error fault =>
        rw [hx] at h
        cases h

/-- A new password key is issued on the account's document, which is stored
again. -/
theorem resetSteps_ok {now : Timestamp} {lookup : Lookup}
    {issued : IssuedDocument}
    (hrun : Runs (resetSteps now lookup password) d (.ok issued) d') :
    ∃ account i key policy d₁ d₂ d₃,
      Runs (resetTarget lookup) d (.ok (account, i)) d₁ ∧
      Runs (Custody.delete account) d₁ (.ok ()) d₂ ∧
      Runs (Custody.passwordKey account password) d₂ (.ok key) d₃ ∧
      (reissued now key.pair i).Composes policy ∧
      Runs (store account ((reissued now key.pair i).installPolicy policy
          (d₃.entropy.take Identifier.seedLength)) key.wrapped)
        { d₃ with entropy := d₃.entropy.drop Identifier.seedLength }
          (.ok issued) d' := by
  obtain ⟨⟨account, i⟩, d₁, htarget, hrest⟩ := Runs.bind_ok.mp hrun
  obtain ⟨⟨key, i'⟩, d₄, hissue, hstore⟩ := Runs.bind_ok.mp hrest
  obtain ⟨d₂, d₃, policy, hdelete, hkey, rfl, hpolicy, rfl⟩ :=
    reissuePassword_ok (IssueM.onIdentifier_ok hissue)
  exact ⟨account, i, key, policy, d₁, d₂, d₃, htarget, hdelete, hkey,
    hpolicy, hstore⟩

/-- A reset that succeeds makes all of its changes. -/
theorem changed_of_resetSteps {now : Timestamp} {lookup : Lookup}
    {issued : IssuedDocument}
    (hrun : Runs (resetSteps now lookup password) d (.ok issued) d') :
    ∃ account, account? d.view.lookup lookup = some account ∧
      d.view.Changed (resetChanges d.view.lookup account issued.wrapped
        (normalizeDid issued.did) issued.document) d'.view := by
  obtain ⟨account, i, key, policy, d₁, d₂, d₃, htarget, hdelete, hkey,
      -, hstore⟩ :=
    resetSteps_ok hrun
  have hkept := (makes_resetTarget lookup).ok htarget
  have hstored := changed_of_stored hdelete hkey hstore
  rw [hkept.lookup] at hstored
  exact ⟨account, (resetTarget_ok htarget).1, hkept.trans hstored⟩

/-- A reset makes its changes in their order, as far as it comes. -/
theorem exists_makes_resetSteps {now : Timestamp} {lookup : Lookup}
    (haccount : account? d.view.lookup lookup = some account) :
    ∃ wrapped did canonical, Makes Desk.view (resetSteps now lookup password) d
      (resetChanges d.view.lookup account wrapped did canonical) := by
  obtain ⟨stored, hall⟩ : ∃ stored : Bytes × String × Bytes,
      Makes Desk.view (resetSteps now lookup password) d
        ([] ++ resetChanges d.view.lookup account stored.1 stored.2.1
          stored.2.2) := by
    refine (makes_resetTarget lookup).bind_exists fun target d₁ htarget => ?_
    have hsame := (resetTarget_ok htarget).1.symm.trans haccount
    have hlook : d₁.view.lookup = d.view.lookup :=
      ((makes_resetTarget lookup).ok htarget).lookup
    obtain ⟨wrapped, hissue⟩ : ∃ wrapped,
        Makes IssueM.view (reissuePassword now target.1 password) (target.2, d₁)
          (Custody.passwordChanges target.1 wrapped) :=
            exists_makes_reissuePassword
    obtain ⟨did, canonical, hstored⟩ := exists_makes_stored hissue target.1
    rw [hlook, Option.some.inj hsame] at hstored
    refine ⟨(wrapped, did, canonical), ?_⟩
    simp only [resetChanges, ← Option.some.inj hsame] at hstored ⊢
    exact hstored
  exact ⟨stored.1, stored.2.1, stored.2.2, hall⟩

/-- An account that is not found has nothing changed. -/
theorem makes_resetSteps_of_none {now : Timestamp} {lookup : Lookup}
    (haccount : account? d.view.lookup lookup = none) :
    Makes Desk.view (resetSteps now lookup password) d [] := by
  refine (makes_resetTarget lookup).bind fun target d₁ hrun => ?_
  rw [(resetTarget_ok hrun).1] at haccount
  cases haccount

end DidVault.Registry
