import DidVault.Proofs.Registry.Calls

/-!
# What calls are made of

All work of the registry is put together of a few steps: records are read,
written and removed, random bytes and pairs of keys are taken, and an identifier
is looked at and replaced.  A property that all of these have, and that blocks
of steps have with their steps, pervades the whole registry (`Pervades`); it is
one of every call (`Pervades.steps`).
-/

namespace DidVault

variable {T : ∀ {α : Type}, RecordsM α → Prop}
  {P : ∀ {α : Type}, DeskM α → Prop}
variable {Q : ∀ {α : Type}, IssueM α → Prop} {α β : Type}

/-- The properties hold of all steps on the records, at a desk and on an
identifier, and of everything that is put together of them. -/
structure Pervades (T : ∀ {α : Type}, RecordsM α → Prop)
    (P : ∀ {α : Type}, DeskM α → Prop) (Q : ∀ {α : Type}, IssueM α → Prop) :
    Prop where
  onRecords : Closed T
  read? : ∀ key, T (RecordsM.read? key)
  put : ∀ key value, T (RecordsM.put key value)
  delete : ∀ key, T (RecordsM.delete key)
  onDesk : Closed P
  records : ∀ {α : Type} {op : RecordsM α}, T op → P (DeskM.records op)
  draw : ∀ count shortage, P (DeskM.draw count shortage)
  takeOrMake : ∀ purpose, P (DeskM.takeOrMake purpose)
  onIdentifiers : Closed Q
  identifier : Q IssueM.identifier
  setIdentifier : ∀ i, Q (IssueM.setIdentifier i)
  atDesk : ∀ {α : Type} {op : DeskM α}, P op → Q (IssueM.atDesk op)
  onIdentifier : ∀ {α : Type} {op : IssueM α} i, Q op →
    P (IssueM.onIdentifier i op)

namespace Pervades

/-! ## Records -/

/-- Reading a text is reading a record, and then nothing that counts. -/
theorem readText? (h : Pervades T P Q) (what key : String) :
    T (RecordsM.readText? what key) := by
  refine h.onRecords.bind (h.read? key) fun found => ?_
  cases found with
  | none => exact h.onRecords.pure _
  | some bytes =>
      refine h.onRecords.bind ?_ fun _ => h.onRecords.pure _
      unfold RecordsM.textOf
      split
      · exact h.onRecords.pure _
      · exact h.onRecords.throw _

/-- Removing what is to be removed is one call or none. -/
theorem deleteAny (h : Pervades T P Q) (slot : Option Slot) :
    T (RecordsM.deleteAny slot) := by
  cases slot with
  | none => exact h.onRecords.pure ()
  | some s => exact h.delete _

/-- Indexing consists of two reads, at most two removals, and two writes. -/
theorem saveIndex (h : Pervades T P Q) (account did : String) :
    T (RecordsM.saveIndex account did) := by
  rw [RecordsM.saveIndex_eq]
  refine h.onRecords.bind (h.readText? ..) fun previous => ?_
  refine h.onRecords.bind (h.deleteAny _) fun _ => ?_
  refine h.onRecords.bind (h.readText? ..) fun owner => ?_
  refine h.onRecords.bind (h.deleteAny _) fun _ => ?_
  exact h.onRecords.bind (h.put ..) fun _ => h.put ..

/-! ## Keys -/

/-- An error of keys that is passed on is the end, and everything else is
nothing. -/
theorem ofKeys (h : Pervades T P Q) (x : Except KeyError α) :
    P (DeskM.ofKeys x) :=
  DeskM.ofKeys_of_closed h.onDesk x

/-- An error of documents that is passed on is the end, and everything else is
nothing. -/
theorem ofDid (h : Pervades T P Q) (x : Except DidError α) :
    P (DeskM.ofDid x) := by
  cases x with
  | ok a => exact h.onDesk.pure a
  | error e => exact h.onDesk.throw _

/-- Wrapping draws a first block and nothing else. -/
theorem wrap (h : Pervades T P Q) (plaintext : Bytes) (password : String) :
    P (Custody.wrap plaintext password) :=
  Custody.wrap_of_closed h.onDesk h.draw ..

/-- The account's own key is read, or else taken or made and stored. -/
theorem spaceKey (h : Pervades T P Q) (account : String) :
    P (Custody.spaceKey account) :=
  Custody.spaceKey_of_closed h.onDesk (h.records (h.readText? ..))
    (fun _ => h.records (h.put ..)) (h.takeOrMake .space)

/-- The password key is read and opened, or else taken or made, wrapped and
stored. -/
theorem passwordKey (h : Pervades T P Q) (account password : String) :
    P (Custody.passwordKey account password) :=
  Custody.passwordKey_of_closed h.onDesk (h.records (h.read? _))
    (fun _ => h.records (h.put ..)) (h.takeOrMake .password) h.draw password

/-- A new password means reading, opening, wrapping and storing. -/
theorem rotate (h : Pervades T P Q) (account old new : String) :
    P (Custody.rotate account old new) := by
  refine h.onDesk.bind (h.records (h.read? _)) fun found => ?_
  cases found with
  | none => exact h.onDesk.throw _
  | some wrapped =>
      refine h.onDesk.bind (h.ofKeys _) fun pair => ?_
      refine h.onDesk.bind (h.wrap ..) fun rewrapped => ?_
      exact h.onDesk.bind (h.records (h.put ..)) fun _ => h.onDesk.pure _

/-! ## Credentials -/

/-- Publishing only looks at the identifier and replaces it. -/
theorem publish (h : Pervades T P Q) (kind : Credential) (keyType : KeyType)
    (pem query : String) (index : Option Nat) :
    Q (Issuing.publish kind keyType pem query index) := by
  refine h.onIdentifiers.bind h.identifier fun i => ?_
  cases i.addMethod keyType pem query kind.fragment index with
  | error fault => exact h.onIdentifiers.throw _
  | ok added =>
      exact h.onIdentifiers.bind (h.setIdentifier _) fun _ =>
        h.onIdentifiers.pure _

/-- A key that was handed in is checked and then published. -/
theorem publishExternal (h : Pervades T P Q) (now : Timestamp)
    (kind : Credential) (key : BinderKey) :
    Q (Issuing.publishExternal now kind key) := by
  unfold Issuing.publishExternal
  split
  · exact h.onIdentifiers.throw _
  · split
    · exact h.onIdentifiers.throw _
    · exact h.publish ..

/-- The device asks for the account's own key and publishes it. -/
theorem addDevice (h : Pervades T P Q) (now : Timestamp) (account : String) :
    Q (Issuing.addDevice now account) :=
  h.onIdentifiers.bind (h.atDesk (h.spaceKey account)) fun _ => h.publish ..

/-- The client's key is published, if there is one. -/
theorem addBinder (h : Pervades T P Q) (now : Timestamp)
    (keys : List BinderKey) :
    Q (Issuing.addBinder now keys) := by
  unfold Issuing.addBinder
  split
  · exact h.publishExternal ..
  · exact h.onIdentifiers.throw _

/-- The key for the client's password is published, if there is one. -/
theorem addPasswordOnBinder (h : Pervades T P Q) (now : Timestamp)
    (keys : List BinderKey) :
    Q (Issuing.addPasswordOnBinder now keys) := by
  unfold Issuing.addPasswordOnBinder
  split
  · exact h.onIdentifiers.bind (h.publishExternal ..) fun _ =>
      h.onIdentifiers.pure _
  · exact h.onIdentifiers.pure _

/-- The password key is removed and made anew before it is published. -/
theorem addPasswordOnDevice (h : Pervades T P Q) (now : Timestamp)
    (account password : String) :
    Q (Issuing.addPasswordOnDevice now account password) := by
  refine h.onIdentifiers.bind h.identifier fun i => ?_
  refine h.onIdentifiers.bind (h.setIdentifier _) fun _ => ?_
  refine h.onIdentifiers.bind (h.atDesk (h.records (h.delete _))) fun _ => ?_
  refine h.onIdentifiers.bind (h.atDesk (h.passwordKey account password))
    fun key => ?_
  exact h.onIdentifiers.bind (h.publish ..) fun _ => h.onIdentifiers.pure _

/-- The policy is composed of what the identifier has, under a seed that is
drawn. -/
theorem composeRecovery (h : Pervades T P Q) : Q Issuing.composeRecovery := by
  refine h.onIdentifiers.bind h.identifier fun i => ?_
  refine h.onIdentifiers.bind h.identifier fun j => ?_
  split
  · exact h.onIdentifiers.throw _
  · refine h.onIdentifiers.bind (h.atDesk (h.draw ..)) fun seed => ?_
    exact h.onIdentifiers.bind (h.setIdentifier _) fun _ =>
      h.onIdentifiers.pure _

/-! ## The registry -/

/-- Storing a document takes calls on the records only. -/
theorem store (h : Pervades T P Q) (account : String) (i : Identifier)
    (wrapped : Bytes) :
    P (Registry.store account i wrapped) := by
  rw [Registry.store_eq]
  refine h.onDesk.bind (h.ofDid _) fun _ => ?_
  refine h.onDesk.bind (h.records (h.readText? ..)) fun previous => ?_
  refine h.onDesk.bind (h.records (h.deleteAny _)) fun _ => ?_
  refine h.onDesk.bind (h.records (h.put ..)) fun _ => ?_
  exact h.onDesk.bind (h.records (h.saveIndex ..)) fun _ => h.onDesk.pure _

/-- The credentials of a new document are issued one after the other. -/
theorem issueAll (h : Pervades T P Q) (now : Timestamp)
    (account password : String) (keys : List BinderKey) :
    Q (Registry.issueAll now account password keys) := by
  refine h.onIdentifiers.bind (h.addDevice now account) fun _ => ?_
  refine h.onIdentifiers.bind (h.addBinder now keys) fun _ => ?_
  refine h.onIdentifiers.bind (h.addPasswordOnDevice now account password)
    fun answer => ?_
  refine h.onIdentifiers.bind (h.addPasswordOnBinder now keys) fun _ => ?_
  exact h.onIdentifiers.bind h.composeRecovery fun _ =>
    h.onIdentifiers.pure answer.2

/-- A new password key means a publishing and a composition. -/
theorem reissuePassword (h : Pervades T P Q) (now : Timestamp)
    (account password : String) :
    Q (Registry.reissuePassword now account password) := by
  refine h.onIdentifiers.bind h.identifier fun i => ?_
  refine h.onIdentifiers.bind (h.setIdentifier _) fun _ => ?_
  refine h.onIdentifiers.bind (h.addPasswordOnDevice now account password)
    fun answer => ?_
  exact h.onIdentifiers.bind h.composeRecovery fun _ =>
    h.onIdentifiers.pure answer.2

/-- A creation issues the credentials and stores the document. -/
theorem createSteps (h : Pervades T P Q) (now : Timestamp)
    (account password : String) (keys : List BinderKey) :
    P (Registry.createSteps now account password keys) :=
  h.onDesk.bind (h.onIdentifier .new (h.issueAll now account password keys))
    fun answer =>
    h.store account answer.2 answer.1.wrapped

/-- An account is known already, or it is looked up in the index. -/
theorem resolveAccount (h : Pervades T P Q) (lookup : Lookup) :
    P (Registry.resolveAccount lookup) := by
  cases lookup with
  | account account => exact h.onDesk.pure account
  | did did =>
      refine h.onDesk.bind (h.records (h.readText? ..)) fun found => ?_
      cases found with
      | some account => exact h.onDesk.pure account
      | none => exact h.onDesk.throw _

/-- A DID is known already, or it is looked up in the index. -/
theorem resolveDid (h : Pervades T P Q) (lookup : Lookup) :
    P (Registry.resolveDid lookup) := by
  cases lookup with
  | did did => exact h.onDesk.pure _
  | account account =>
      refine h.onDesk.bind (h.records (h.readText? ..)) fun found => ?_
      cases found with
      | some did => exact h.onDesk.pure did
      | none => exact h.onDesk.throw _

/-- A document is read by its DID. -/
theorem documentOf (h : Pervades T P Q) (did : String) :
    P (Registry.documentOf did) := by
  refine h.onDesk.bind (h.records (h.read? _)) fun found => ?_
  cases found with
  | some bytes => exact h.onDesk.pure bytes
  | none => exact h.onDesk.throw _

/-- A document is parsed, or there is an error. -/
theorem readDocument (h : Pervades T P Q) (bytes : Bytes) :
    P (Registry.readDocument bytes) := by
  unfold Registry.readDocument
  split
  · exact h.onDesk.pure _
  · exact h.onDesk.throw _

/-- What a reset works on is found by reading the index and the document. -/
theorem resetTarget (h : Pervades T P Q) (lookup : Lookup) :
    P (Registry.resetTarget lookup) := by
  refine h.onDesk.bind (h.resolveAccount lookup) fun account => ?_
  refine h.onDesk.bind (h.resolveDid (.account account)) fun did => ?_
  refine h.onDesk.bind (h.documentOf did) fun bytes => ?_
  refine h.onDesk.bind (h.readDocument bytes) fun document => ?_
  exact h.onDesk.bind (h.ofDid _) fun i => h.onDesk.pure _

/-- A reset reads, issues and stores. -/
theorem resetSteps (h : Pervades T P Q) (now : Timestamp) (lookup : Lookup)
    (password : String) :
    P (Registry.resetSteps now lookup password) := by
  refine h.onDesk.bind (h.resetTarget lookup) fun target => ?_
  refine h.onDesk.bind
    (h.onIdentifier target.2 (h.reissuePassword now target.1 password)) ?_
  exact fun answer => h.store target.1 answer.2 answer.1.wrapped

/-- Looking a document up means reading the index and the document. -/
theorem document (h : Pervades T P Q) (lookup : Lookup) :
    P (Registry.document lookup) :=
  h.onDesk.bind (h.resolveDid lookup) h.documentOf

/-- Looking a wrapped key up is one read. -/
theorem wrapped? (h : Pervades T P Q) (account : String) :
    P (Registry.wrapped? account) :=
  h.records (h.read? _)

/-- Looking a DID up is one read. -/
theorem didOf? (h : Pervades T P Q) (account : String) :
    P (Registry.didOf? account) :=
  h.records (h.readText? ..)

/-- Looking an account up is one read. -/
theorem accountOf? (h : Pervades T P Q) (did : String) :
    P (Registry.accountOf? did) :=
  h.records (h.readText? ..)

/-- What holds of all steps holds of everything that a call works through. -/
theorem steps (h : Pervades T P Q) (c : Call) : P c.steps := by
  cases c with
  | create now account password keys => exact h.onDesk.map (h.createSteps ..)
  | reset now lookup password => exact h.onDesk.map (h.resetSteps ..)
  | updatePassword account old new => exact h.onDesk.map (h.rotate ..)
  | saveIndex account did => exact h.onDesk.map (h.records (h.saveIndex ..))

end Pervades

end DidVault
