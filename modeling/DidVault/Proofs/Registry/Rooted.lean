import DidVault.Proofs.Keys.Wrapping
import DidVault.Proofs.Registry.Credentials
import DidVault.Proofs.Registry.Index
import DidVault.Proofs.Registry.Keeping

/-!
# Documents are rooted in keys

A call only ever writes the own key of an account where there is none
(`Call.spaceKey_not_mem_footprint`), and the DID that a creation answers is
that of this key (`Registry.named_of_create`).

A new password key is issued on a stored document.  Such a document is founded
on the key that the DID names under which it is stored (`Sight.Rooted`),
whatever was indexed, issued and removed before.  Therefore a reset stores its
document where the one before was, and the index stays as it is
(`Registry.replaces_of_reset`).
-/

namespace DidVault

open DeskM Registry

/-- Every expected pair is read back from its private key with the same public
key. -/
def Desk.Reloads (d : Desk) : Prop :=
  ∀ ⦃pair⦄, d.Expects pair →
    ∃ read, KeyPair.ofPrivatePem pair.privatePem = some read ∧
    read.publicPem = pair.publicPem

/-- What is left at the desk reloads if everything there did. -/
theorem Desk.Spent.reloads {d d' : Desk} (hspent : d.Spent d')
    (hreloads : d.Reloads) : d'.Reloads :=
  fun _ hpair => hreloads (hspent.expects hpair)

/-- The bytes are a document that is founded on the key that the DID names. -/
def RootedAt (did : String) (bytes : Bytes) : Prop :=
  ∃ document pem, Document.parse bytes = .ok document ∧
    Founded document.methods pem ∧
    did = didOfKey pem

/-- Every document is stored under the DID of the key that it is founded on, and
the directions of the index are inverse to each other. -/
structure Sight.Rooted (look : Sight) : Prop extends Sight.Paired look where
  rooted : ∀ did bytes, look (Slot.document did).key = some bytes →
    RootedAt did bytes

namespace Sight

variable {look : Sight} {changes : List Change} {s : Slot} {value : Bytes}

/-- What is found after some changes was there before or is one of them. -/
theorem mem_of_after (hvalue : look.after changes s.key = some value) :
    look s.key = some value ∨ (s, some value) ∈ changes := by
  induction changes generalizing look with
  | nil => exact .inl hvalue
  | cons c rest ih =>
      rcases ih hvalue with h | h
      · by_cases hs : c.1 = s
        · rw [if_pos (Slot.key_inj.mpr hs)] at h
          refine .inr (List.mem_cons.mpr (.inl ?_))
          rw [← hs, ← h]
        · rw [if_neg (mt Slot.key_inj.mp hs)] at h
          exact .inl h
      · exact .inr (List.mem_cons_of_mem _ h)

/-- A store without records is rooted. -/
theorem Rooted.start : Rooted (Table.get? .empty) where
  toPaired := .start
  rooted _ _ h := nomatch h

/-- A call keeps the records rooted, if the documents that it writes are. -/
theorem Rooted.after {call : Call} {answer : Answer} (h : look.Rooted)
    (heffect : call.Effect look answer changes)
    (hdocuments : ∀ did bytes, (Slot.document did, some bytes) ∈ changes →
      RootedAt did bytes) :
    (look.after changes).Rooted where
  toPaired := h.toPaired.of_effect heffect
  rooted did bytes hbytes := by
    rcases mem_of_after hbytes with hkept | hchanged
    · exact h.rooted did bytes hkept
    · exact hdocuments did bytes hchanged

end Sight

namespace Registry

variable {look : Sight} {account did : String} {canonical wrapped : Bytes}
  {own : KeyPair}
variable {x : String} {bytes : Bytes}

/-- One document is stored. -/
theorem document_of_mem_storeChanges
    (hmem : (Slot.document x, some bytes) ∈
      storeChanges look account did canonical) :
    x = did ∧ bytes = canonical := by
  rw [storeChanges] at hmem
  rcases List.mem_append.mp hmem with h | h
  · rcases List.mem_append.mp h with h | h
    · cases (mem_removal.mp h).2
    · cases List.mem_singleton.mp h
      exact ⟨rfl, rfl⟩
  · rcases kind_of_mem_indexSlots (mem_indexSlots_of_change h) with
      ⟨a, h⟩ | ⟨x, h⟩ <;> cases h

/-- The one document that a reset writes is the reissued one. -/
theorem document_of_mem_resetChanges
    (hmem : (Slot.document x, some bytes) ∈
      resetChanges look account wrapped did canonical) :
    x = did ∧ bytes = canonical := by
  rcases List.mem_append.mp hmem with h | h
  · cases slot_of_passwordChanges h
  · exact document_of_mem_storeChanges h

/-- The one document that a creation writes is the new one. -/
theorem document_of_mem_createChanges
    (hmem : (Slot.document x, some bytes) ∈
      createChanges look account own wrapped did canonical) :
    x = did ∧ bytes = canonical := by
  rcases List.mem_append.mp hmem with h | h
  · cases kind_of_mem_ownSlots (slot_of_ownChanges h)
  · exact document_of_mem_resetChanges h

/-- Only a creation writes the own key of an account. -/
theorem spaceKey_after_resetChanges :
    look.after (resetChanges look account wrapped did canonical)
      (Slot.spaceKey account).key = look (Slot.spaceKey account).key := by
  rw [resetChanges, Sight.after_append, after_storeChanges_of_key (.inl rfl)]
  refine Sight.after_slot fun c hc => ?_
  rw [slot_of_passwordChanges hc]
  intro h
  cases h

variable {d d' d₁ : Desk} {i : Identifier} {policy : Policy} {seed : Bytes}
  {pem : String}
variable {issued : IssuedDocument} {now : Timestamp} {password : String}
  {keys : List BinderKey}
variable {lookup : Lookup}

/-- What is issued on a key has its DID. -/
theorem rootedAt_of_store (hfounded : Founded i.methods pem)
    (hpolicy : i.Composes policy)
    (hstore : Runs (store account (i.installPolicy policy seed) wrapped) d
      (.ok issued) d') :
    issued.did = didOfKey pem ++ Names.reference i.fragment ∧
      normalizeDid issued.did = didOfKey pem ∧
      RootedAt (normalizeDid issued.did) issued.document := by
  have hinstalled :=
    Identifier.founded_installPolicy seed hfounded
      (Identifier.recoveryPolicy_ok hpolicy)
  obtain ⟨-, hdid, document, hparse, -, -, -, hmethods⟩ :=
    document_of_store hinstalled (Identifier.normalizeDid_did hinstalled) hstore
  refine ⟨?_, hdid, document, pem, hparse, hmethods, hdid⟩
  rw [(store_ok hstore).2]
  exact Identifier.did_of_founded hinstalled

/-- The own key of an account is found behind a creation, and its public key is
the one that the document was issued for. -/
theorem spaceKey_of_created (hreloads : d.Reloads)
    (hown : Runs (Custody.spaceKey account) d (.ok own) d₁)
    (hchanged : d.view.Changed
      (createChanges d.view.lookup account own wrapped did canonical) d'.view) :
    ∃ pem read, d'.view.lookup (Slot.spaceKey account).key =
      some (Utf8.encode pem) ∧
      KeyPair.ofPrivatePem pem = some read ∧
      read.publicPem = own.publicPem := by
  rw [hchanged.lookup, createChanges, Sight.after_append,
    spaceKey_after_resetChanges]
  rcases (Custody.spaceKey_ok hown).2 with ⟨pem, hlook, hread, -⟩
    | ⟨hnone, v, d₂, htake, -⟩
  · refine ⟨pem, own, ?_, hread, rfl⟩
    rw [Custody.ownChanges, hlook]
    exact hlook
  · have htaken := expects_of_takeOrMake htake
    have hexpected : d.Expects own := htaken
    obtain ⟨read, hread, hsame⟩ := hreloads hexpected
    refine ⟨own.privatePem, read, ?_, hread, hsame⟩
    rw [Custody.ownChanges, hnone]
    exact if_pos rfl

/-- A new document is founded on the own key of the account, which its DID
names. -/
theorem founded_of_createSteps
    (hrun : Runs (createSteps now account password keys) d (.ok issued) d') :
    ∃ own d₁, Runs (Custody.spaceKey account) d (.ok own) d₁ ∧
      d.view.Changed (createChanges d.view.lookup account own issued.wrapped
        (normalizeDid issued.did) issued.document) d'.view ∧
      issued.did =
        didOfKey own.publicPem ++ Names.reference Names.defaultFragment ∧
      RootedAt (normalizeDid issued.did) issued.document := by
  obtain ⟨own, key, binder, policy, d₁, d₂, d₃, hown, hdelete, hkey, -,
      hpolicy, hstore⟩ :=
    createSteps_ok hrun
  obtain ⟨hdid, -, hroot⟩ :=
    rootedAt_of_store (founded_credentials now own key.pair binder keys)
      hpolicy hstore
  rw [fragment_credentials] at hdid
  exact ⟨own, d₁, hown,
    changed_of_created hown (changed_of_stored hdelete hkey hstore),
    hdid, hroot⟩

/-- A new password key is issued on the document that is stored under the DID of
the account, and the DID stays the same. -/
theorem founded_of_resetSteps (hrooted : Sight.Rooted d.view.lookup)
    (hrun : Runs (resetSteps now lookup password) d (.ok issued) d') :
    ∃ account bytes, account? d.view.lookup lookup = some account ∧
      Sight.Maps d.view.lookup account (normalizeDid issued.did) ∧
      d.view.lookup (Slot.document (normalizeDid issued.did)).key = some bytes ∧
      RootedAt (normalizeDid issued.did) issued.document := by
  obtain ⟨account, i, key, policy, d₁, d₂, d₃, htarget, -, -, hpolicy,
      hstore⟩ := resetSteps_ok hrun
  obtain ⟨haccount, did, bytes, document, hindexed, hstored, hread, hi⟩ :=
    resetTarget_ok htarget
  have hnormal : normalizeDid did = did :=
    hrooted.normal did account ((hrooted.inverse account did).mp hindexed)
  rw [hnormal] at hstored
  obtain ⟨parsed, pem, hparsed, hmethods, hdid⟩ :=
    hrooted.rooted did bytes hstored
  obtain rfl := Except.ok.inj (hparsed.symm.trans hread)
  rw [← Identifier.methods_ofDocument hi] at hmethods
  obtain ⟨-, hsame, hroot⟩ :=
    rootedAt_of_store (founded_reissued now key.pair hmethods) hpolicy hstore
  rw [hsame, ← hdid]
  rw [hsame, ← hdid] at hroot
  exact ⟨account, bytes, haccount, hindexed, hstored, hroot⟩

end Registry

namespace Call

open Registry

variable {look : Sight} {d d' : Desk} {issued : IssuedDocument}

/-- The own key of an account is never written where there is one. -/
theorem spaceKey_not_mem_footprint {account : String} {value : Bytes} (c : Call)
    (answer : Answer) (hvalue : look (Slot.spaceKey account).key = some value) :
    .spaceKey account ∉ c.footprint look answer := by
  have hstore : ∀ {other did : String},
      Slot.spaceKey account ∉ Slot.passwordKey other ::
      (documentSlots look other did ++ indexSlots look other did) := by
    intro other did hmem
    rcases List.mem_cons.mp hmem with h | h
    · cases h
    · exact spaceKey_not_mem_slots account h
  cases c with
  | create now other password keys =>
      cases answer with
      | issued doc =>
          intro hmem
          rcases List.mem_append.mp hmem with h | h
          · obtain rfl := Slot.spaceKey.inj (kind_of_mem_ownSlots h)
            rw [ownSlots, hvalue] at h
            cases h
          · exact hstore h
      | rewrapped wrapped | indexed => exact List.not_mem_nil
  | reset now lookup password =>
      cases answer with
      | issued doc =>
          rw [footprint]
          split
          · exact hstore
          · exact List.not_mem_nil
      | rewrapped wrapped | indexed => exact List.not_mem_nil
  | updatePassword other old new =>
      cases answer with
      | rewrapped wrapped =>
          intro hmem
          cases List.mem_singleton.mp hmem
      | issued doc | indexed => exact List.not_mem_nil
  | saveIndex other did =>
      cases answer with
      | indexed =>
          intro hmem
          rcases kind_of_mem_indexSlots hmem with ⟨x, hx⟩ | ⟨x, hx⟩ <;> cases hx
      | issued doc | rewrapped wrapped => exact List.not_mem_nil

/-- What a call issues is a document that is founded on the key that its DID
names. -/
theorem rootedAt_of_steps (c : Call) (hrooted : Sight.Rooted d.view.lookup)
    (hrun : Runs c.steps d (.ok (.issued issued)) d') :
    RootedAt (normalizeDid issued.did) issued.document := by
  cases c with
  | create now account password keys =>
      obtain ⟨doc, hsteps, hdoc⟩ := Runs.map_ok.mp hrun
      cases hdoc
      obtain ⟨own, d₁, -, -, -, hroot⟩ := founded_of_createSteps hsteps
      exact hroot
  | reset now lookup password =>
      obtain ⟨doc, hsteps, hdoc⟩ := Runs.map_ok.mp hrun
      cases hdoc
      obtain ⟨account, bytes, -, -, -, hroot⟩ :=
        founded_of_resetSteps hrooted hsteps
      exact hroot
  | updatePassword account old new =>
      obtain ⟨wrapped, -, h⟩ := Runs.map_ok.mp hrun
      cases h
  | saveIndex account did =>
      obtain ⟨u, -, h⟩ := Runs.map_ok.mp hrun
      cases h

/-- The only document that a call stores is the one that it answers. -/
theorem document_of_effect {c : Call} {answer : Answer} {changes : List Change}
    {did : String} {bytes : Bytes} (heffect : c.Effect look answer changes)
    (hmem : (Slot.document did, some bytes) ∈ changes) :
    ∃ issued, answer = .issued issued ∧ did = normalizeDid issued.did ∧
      bytes = issued.document := by
  cases c with
  | create now account password keys =>
      cases answer with
      | issued doc =>
          obtain ⟨own, rfl⟩ := heffect
          exact ⟨doc, rfl, document_of_mem_createChanges hmem⟩
      | rewrapped wrapped | indexed => exact heffect.elim
  | reset now lookup password =>
      cases answer with
      | issued doc =>
          obtain ⟨account, -, rfl⟩ := heffect
          exact ⟨doc, rfl, document_of_mem_resetChanges hmem⟩
      | rewrapped wrapped | indexed => exact heffect.elim
  | updatePassword account old new =>
      cases answer with
      | rewrapped wrapped =>
          obtain rfl := heffect
          cases List.mem_singleton.mp hmem
      | issued doc | indexed => exact heffect.elim
  | saveIndex account did =>
      cases answer with
      | indexed =>
          obtain rfl := heffect
          rcases kind_of_mem_indexSlots (mem_indexSlots_of_change hmem) with
            ⟨x, hx⟩ | ⟨x, hx⟩ <;>
              cases hx
      | issued doc | rewrapped wrapped => exact heffect.elim

/-- A call that succeeds leaves each document under the DID of the key that it
is founded on. -/
theorem rooted_of_steps {c : Call} {answer : Answer}
    (hrooted : Sight.Rooted d.view.lookup)
    (hrun : Runs c.steps d (.ok answer) d') :
    Sight.Rooted d'.view.lookup := by
  obtain ⟨changes, heffect, hchanged⟩ := c.changed_of_steps hrun
  rw [hchanged.lookup]
  refine hrooted.after heffect fun did bytes hmem => ?_
  obtain ⟨issued, rfl, rfl, rfl⟩ := document_of_effect heffect hmem
  exact c.rootedAt_of_steps hrooted hrun

/-- Every call keeps the committed records rooted, whether it fails or not. -/
theorem rooted_of_run {c : Call} {r : Except Error Answer}
    (hclosed : d.view.pending = none)
    (hrooted : Sight.Rooted d.view.committed.get?) (hrun : Runs c.run d r d') :
    Sight.Rooted d'.view.committed.get? := by
  refine c.committed_kept hclosed hrooted (fun _ _ _ hbefore hsteps => ?_) hrun
  exact rooted_of_steps hbefore hsteps

/-- A call outside a transaction leaves the own key of an account as it is. -/
theorem spaceKey_of_run {account : String} {value : Bytes} {c : Call}
    {r : Except Error Answer} (hclosed : d.view.pending = none)
    (hrun : Runs c.run d r d')
    (hvalue : d.view.committed.get? (Slot.spaceKey account).key = some value) :
    d'.view.committed.get? (Slot.spaceKey account).key = some value := by
  cases r with
  | error e =>
      rw [c.committed_of_failed hclosed hrun]
      exact hvalue
  | ok answer =>
      rw [← hvalue]
      refine c.kept_of_run hclosed hrun fun s hs hkey => ?_
      rw [Slot.key_inj.mp hkey] at hs
      exact c.spaceKey_not_mem_footprint answer hvalue hs

end Call

/-- The document of an account is stored where there was one before.  Besides
that, only the password key of the account is changed, so that no document is
removed and the index is the same. -/
structure Replaces (before after : Records) (account did : String)
    (document : Bytes) : Prop where
  indexed : before.get? (Slot.didOf account).key = some (Utf8.encode did)
  replaced : (before.get? (Slot.document did).key).isSome = true
  stored : after.get? (Slot.document did).key = some document
  others : ∀ key, key ≠ (Slot.passwordKey account).key →
    key ≠ (Slot.document did).key →
    after.get? key = before.get? key

namespace Registry

variable {d d' : Desk} {now : Timestamp} {account password : String}
  {keys : List BinderKey}
variable {lookup : Lookup} {issued : IssuedDocument}

/-- Where an account is indexed under its DID already, a reset has nothing else
to change. -/
theorem slots_of_settled {look : Sight} {did : String} {s : Slot}
    (hpaired : look.Paired) (hmaps : look.Maps account did)
    (hs : s ∈ Slot.passwordKey account ::
      (documentSlots look account did ++ indexSlots look account did)) :
    s = .passwordKey account ∨ s = .document did ∨ s = .didOf account ∨
      s = .accountOf did := by
  have hback := (hpaired.inverse account did).mp hmaps
  have hdid : ∀ previous, look.text? (.didOf account) = some previous →
      previous = did := by
    intro previous hprevious
    exact Utf8.encode_injective
      (Option.some.inj ((Sight.eq_of_text? hprevious).symm.trans hmaps))
  have howner : ∀ owner, look.text? (.accountOf did) = some owner →
      owner = account := by
    intro owner howner
    exact hback.account_eq (Sight.eq_of_text? howner)
  rw [documentSlots, indexSlots, staleDocument, staleOwner, staleDid,
    stale_eq_none hdid, stale_eq_none howner] at hs
  simpa using hs

/-- A new document has the DID of the own key of its account, as it is stored
then. -/
theorem named_of_create (hclosed : d.view.pending = none) (hreloads : d.Reloads)
    (hrun : Runs (Call.create now account password keys).run d
      (.ok (.issued issued)) d') :
    ∃ pem own, d'.view.committed.get? (Slot.spaceKey account).key =
      some (Utf8.encode pem) ∧
      KeyPair.ofPrivatePem pem = some own ∧
      issued.did =
        didOfKey own.publicPem ++ Names.reference Names.defaultFragment := by
  obtain ⟨d₁, hmapped, rfl⟩ := (Call.run_of_closed _ hclosed).mp hrun
  obtain ⟨doc, hsteps, hdoc⟩ := Runs.map_ok.mp hmapped
  cases hdoc
  obtain ⟨own, d₂, hown, hchanged, hdid, -⟩ := founded_of_createSteps hsteps
  have hbegun : ({ d with view := d.view.begin } : Desk).Reloads := hreloads
  obtain ⟨pem, read, hstored, hread, hsame⟩ :=
    spaceKey_of_created hbegun hown hchanged
  refine ⟨pem, read, ?_, hread, ?_⟩
  · show d₁.view.commit.committed.get? _ = _
    rw [View.get?_commit]
    exact hstored
  · rw [hsame]
    exact hdid

/-- A new password key leaves the DID and the index of its account. -/
theorem replaces_of_reset (hclosed : d.view.pending = none)
    (hrooted : Sight.Rooted d.view.committed.get?)
    (hrun : Runs (Call.reset now lookup password).run d
      (.ok (.issued issued)) d') :
    ∃ account, account? d.view.committed.get? lookup = some account ∧
      Replaces d.view.committed d'.view.committed account
        (normalizeDid issued.did) issued.document := by
  obtain ⟨other, hother, hstored⟩ := Call.stored_of_run _ hclosed hrun
  obtain ⟨d₁, hmapped, rfl⟩ := (Call.run_of_closed _ hclosed).mp hrun
  obtain ⟨doc, hsteps, hdoc⟩ := Runs.map_ok.mp hmapped
  cases hdoc
  obtain ⟨account, bytes, haccount, hindexed, hreplaced, -⟩ :=
    founded_of_resetSteps (d := { d with view := d.view.begin }) hrooted hsteps
  obtain rfl := Option.some.inj (hother.symm.trans haccount)
  refine ⟨other, hother, hindexed, Option.isSome_of_eq_some hreplaced,
    hstored.document, ?_⟩
  intro key hpassword hdocument
  have hback := (hrooted.inverse other _).mp hindexed
  by_cases hdid : (Slot.didOf other).key = key
  · rw [← hdid, hstored.didOf]
    exact hindexed.symm
  by_cases howner : (Slot.accountOf (normalizeDid issued.did)).key = key
  · rw [← howner, hstored.accountOf]
    exact hback.symm
  refine Call.kept_of_run _ hclosed hrun fun s hs hkey => ?_
  simp only [Call.footprint, hother] at hs
  rcases slots_of_settled hrooted.toPaired hindexed hs with
    rfl | rfl | rfl | rfl
  · exact hpassword hkey.symm
  · exact hdocument hkey.symm
  · exact hdid hkey
  · exact howner hkey

end Registry

end DidVault
