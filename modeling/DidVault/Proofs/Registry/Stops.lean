import DidVault.Proofs.Registry.Calls

/-!
# Where calls fail

The steps of a call that writes make their changes one by one, each as a whole
or not at all.  So the step at which a call fails says what the call has changed
by then: nothing before the account's own key is stored, nothing of the password
key until the old one is removed, no password key at all until the new one is
stored, and so on (`IndexStop`, `StoreStop`, `IssueStop`).

`Call.Stops` says this of every call, and `Call.exists_stops` that every failed
call stops in one of these ways.
-/

namespace DidVault

open DeskM Registry

/-- Where indexing an account under a DID fails, and what it has changed by
then. -/
inductive IndexStop (account did : String) (v : View) : List Change → Prop where
  | owner (hfails : Fails (RecordsM.dropOwner account did) v) :
      IndexStop account did v []
  | did {v₁ : View}
      (howner : Runs (RecordsM.dropOwner account did) v (.ok ()) v₁)
      (hfails : Fails (RecordsM.dropDid account did) v₁) :
      IndexStop account did v (removal (staleOwner v.lookup account did))
  | didOf {v₁ v₂ : View}
      (howner : Runs (RecordsM.dropOwner account did) v (.ok ()) v₁)
      (hdid : Runs (RecordsM.dropDid account did) v₁ (.ok ()) v₂)
      (hfails : Fails
        (RecordsM.put (Slot.didOf account).text (Utf8.encode did)) v₂) :
      IndexStop account did v
        (removal (staleOwner v.lookup account did)
          ++ removal (staleDid v₁.lookup account did))
  | accountOf {v₁ v₂ v₃ : View}
      (howner : Runs (RecordsM.dropOwner account did) v (.ok ()) v₁)
      (hdid : Runs (RecordsM.dropDid account did) v₁ (.ok ()) v₂)
      (hput : Runs (RecordsM.put (Slot.didOf account).text (Utf8.encode did)) v₂
        (.ok ()) v₃)
      (hfails : Fails
        (RecordsM.put (Slot.accountOf did).text (Utf8.encode account)) v₃) :
      IndexStop account did v
        (removal (staleOwner v.lookup account did)
          ++ removal (staleDid v₁.lookup account did)
          ++ [(.didOf account, some (Utf8.encode did))])

/-- Where storing the document of an identifier fails, and what it has changed
by then. -/
inductive StoreStop (account : String) (i : Identifier) (d : Desk) :
    List Change → Prop where
  | check (hfails : Fails (dropDocument account i) d) : StoreStop account i d []
  | document {d₁ : Desk} (hdrop : Runs (dropDocument account i) d (.ok ()) d₁)
      (hfails : Fails
        (records (.putDocument i.did i.toDocument.canonicalBytes)) d₁) :
      StoreStop account i d
        (removal (staleDocument d.view.lookup account (normalizeDid i.did)))
  | index {d₁ d₂ : Desk} {later : List Change}
      (hdrop : Runs (dropDocument account i) d (.ok ()) d₁)
      (hput : Runs (records (.putDocument i.did i.toDocument.canonicalBytes)) d₁
        (.ok ()) d₂)
      (hstop : IndexStop account (normalizeDid i.did) d₂.view later) :
      StoreStop account i d
        (removal (staleDocument d.view.lookup account (normalizeDid i.did))
          ++ [(.document (normalizeDid i.did),
            some i.toDocument.canonicalBytes)]
          ++ later)

/-- Where work `op` on an identifier, which replaces the password key of the
account, and the storing behind it fail, and what they have changed by then. -/
inductive IssueStop (account password : String) (op : IssueM PasswordKey)
    (i : Identifier) (d : Desk) : List Change → Prop where
  | kept (hfails : Fails (Custody.delete account) d) :
      IssueStop account password op i d []
  | removed {d₁ : Desk} (hdelete : Runs (Custody.delete account) d (.ok ()) d₁)
      (hfails : Fails (Custody.passwordKey account password) d₁) :
      IssueStop account password op i d [(.passwordKey account, none)]
  | replaced {d₁ d₂ : Desk} {key : PasswordKey}
      (hdelete : Runs (Custody.delete account) d (.ok ()) d₁)
      (hkey : Runs (Custody.passwordKey account password) d₁ (.ok key) d₂)
      (hfails : Fails op (i, d)) :
      IssueStop account password op i d
        (Custody.passwordChanges account key.wrapped)
  | stored {d₁ : Desk} {key : PasswordKey} {j : Identifier}
      {later : List Change} (hissued : Runs op (i, d) (.ok key) (j, d₁))
      (hstop : StoreStop account j d₁ later) :
      IssueStop account password op i d
        (Custody.passwordChanges account key.wrapped ++ later)

/-- What a new document begins with: the account's own key and the client's. -/
def Registry.publishAnchors (now : Timestamp) (keys : List BinderKey)
    (own : KeyPair) : IssueM Issued := do
  let _ ← Issuing.publish .device .rsa own.publicPem
      (Issuing.baseQuery now .device) none
  Issuing.addBinder now keys

/-- Where creating a document fails, and what it has changed by then. -/
inductive CreateStop (now : Timestamp) (account password : String)
    (keys : List BinderKey) (d : Desk) : List Change → Prop where
  | own (hfails : Fails (Custody.spaceKey account) d) :
      CreateStop now account password keys d []
  | anchors {d₁ : Desk} {own : KeyPair}
      (hown : Runs (Custody.spaceKey account) d (.ok own) d₁)
      (hfails : Fails (publishAnchors now keys own) (.new, d₁)) :
      CreateStop now account password keys d
        (Custody.ownChanges d.view.lookup account own)
  | issue {d₁ : Desk} {own : KeyPair} {later : List Change}
      (hown : Runs (Custody.spaceKey account) d (.ok own) d₁)
      (hanchors : Succeeds (publishAnchors now keys own) (.new, d₁))
      (hstop : IssueStop account password
        (issueRest now account password keys own) .new d₁ later) :
      CreateStop now account password keys d
        (Custody.ownChanges d.view.lookup account own ++ later)

/-- Where a reset fails, and what it has changed by then. -/
inductive ResetStop (now : Timestamp) (lookup : Lookup) (password : String)
    (d : Desk) : List Change → Prop where
  | target (hfails : Fails (resetTarget lookup) d) :
      ResetStop now lookup password d []
  | issue {d₁ : Desk} {account : String} {i : Identifier} {done : List Change}
      (htarget : Runs (resetTarget lookup) d (.ok (account, i)) d₁)
      (hstop : IssueStop account password (reissuePassword now account password)
        i d₁ done) :
      ResetStop now lookup password d done

variable {v v' : View} {d d' : Desk} {i j : Identifier} {now : Timestamp}
variable {account password did : String} {keys : List BinderKey}

/-- Indexing that fails has made the changes up to the step where it fails. -/
theorem exists_indexStop {e : StoreError}
    (hrun : Runs (RecordsM.saveIndex account did) v (.error e) v') :
    ∃ done, IndexStop account (normalizeDid did) v done ∧ v.Changed done v' ∧
      done <+: indexChanges v.lookup account (normalizeDid did) := by
  rw [RecordsM.saveIndex_drops] at hrun
  rcases (RecordsM.atOnce_dropOwner account _).cases_of_error hrun with
    ⟨hfails, hclean⟩ | ⟨_, v₁, howner, h₁, hrest⟩
  · exact ⟨[], .owner hfails, hclean, List.nil_prefix⟩
  have hplan : indexChanges v.lookup account (normalizeDid did) =
      removal (staleOwner v.lookup account (normalizeDid did)) ++
        (removal (staleDid v₁.lookup account (normalizeDid did)) ++
          [(.didOf account, some (Utf8.encode (normalizeDid did))),
            (.accountOf (normalizeDid did), some (Utf8.encode account))]) := by
    rw [show v₁.lookup = _ from h₁.lookup, indexChanges, List.append_assoc]
    rfl
  rw [hplan]
  rcases (RecordsM.atOnce_dropDid account _).cases_of_error hrest with
    ⟨hfails, hclean⟩ | ⟨_, v₂, hdid, h₂, hrest⟩
  · refine ⟨_, .did howner hfails, ?_, List.prefix_append ..⟩
    exact h₁.trans_nil hclean
  rcases (RecordsM.atOnce_put (s := .didOf account) _).cases_of_error hrest with
    ⟨hfails, hclean⟩ | ⟨_, v₃, hput, h₃, hrest⟩
  · refine ⟨_, .didOf howner hdid hfails, ?_, ?_⟩
    · exact (h₁.trans h₂).trans_nil hclean
    · exact (List.prefix_append_right_inj _).mpr (List.prefix_append ..)
  · refine ⟨_, .accountOf howner hdid hput ⟨e, v', hrest⟩, ?_, ?_⟩
    · exact ((h₁.trans h₂).trans h₃).trans_nil (RecordsM.put_error hrest)
    · rw [List.append_assoc]
      refine (List.prefix_append_right_inj _).mpr
        ((List.prefix_append_right_inj _).mpr ?_)
      exact List.prefix_append [_] _

/-- Storing that fails has made the changes up to the step where it fails. -/
theorem exists_storeStop {wrapped : Bytes} {e : Error}
    (hrun : Runs (store account i wrapped) d (.error e) d') :
    ∃ done, StoreStop account i d done ∧ d.view.Changed done d'.view ∧
      done <+: storeChanges d.view.lookup account (normalizeDid i.did)
        i.toDocument.canonicalBytes := by
  rw [store_drops] at hrun
  rcases (atOnce_dropDocument account i).cases_of_error hrun with
    ⟨hfails, hclean⟩ | ⟨_, d₁, hdrop, h₁, hrest⟩
  · exact ⟨[], .check hfails, hclean, List.nil_prefix⟩
  rcases (atOnce_putDocument i.did _).cases_of_error hrest with
    ⟨hfails, hclean⟩ | ⟨_, d₂, hput, h₂, hrest⟩
  · refine ⟨_, .document hdrop hfails, h₁.trans_nil hclean, ?_⟩
    rw [storeChanges, List.append_assoc]
    exact List.prefix_append ..
  · rcases Runs.bind_error.mp hrest with hindex | ⟨_, d₃, -, hdone⟩
    · obtain ⟨e₀, v', hfailed, rfl⟩ := records_error hindex
      obtain ⟨later, hstop, hlater, hprefix⟩ := exists_indexStop hfailed
      rw [(h₁.trans h₂).lookup] at hprefix
      exact ⟨_, .index hdrop hput hstop, (h₁.trans h₂).trans hlater,
        (List.prefix_append_right_inj _).mpr hprefix⟩
    · cases (Runs.pure_iff.mp hdone).1

/-- Work that begins with a new password key fails where the old one is removed,
where the new one is made, or behind both. -/
theorem cases_of_passwordKey_error {last : Issued × PasswordKey →
      IssueM PasswordKey} {e : Error} {s' : Identifier × Desk}
    (hlast : ∀ answer s, Makes IssueM.view (last answer) s [])
    (hrun : Runs (Issuing.addPasswordOnDevice now account password >>= last)
      (i, d) (.error e) s') :
    (Fails (Custody.delete account) d ∧ d.view.Changed [] s'.2.view) ∨
      ∃ d₁, Runs (Custody.delete account) d (.ok ()) d₁ ∧
        ((Fails (Custody.passwordKey account password) d₁ ∧
            d₁.view.Changed [] s'.2.view) ∨
          ∃ key d₂, Runs (Custody.passwordKey account password) d₁
            (.ok key) d₂ ∧ d₂.view.Changed [] s'.2.view) := by
  rcases Runs.bind_error.mp hrun with hkey | ⟨answer, s₁, hkey, hrest⟩
  · exact Issuing.addPasswordOnDevice_error hkey
  · obtain ⟨-, d₁, hdelete, hmade⟩ := Issuing.addPasswordOnDevice_ok hkey
    exact .inr ⟨d₁, hdelete, .inr ⟨answer.2, s₁.2, hmade,
      ((hlast answer s₁).error hrest).nothing⟩⟩

/-- Work that replaces the password key first, and stores the document when it
is done, has made the changes up to the step where it fails. -/
theorem exists_issueStop {op : IssueM PasswordKey} {e : Error}
    (last : Issued × PasswordKey → IssueM PasswordKey)
    (hop : ∀ r s', Runs op (i, d) r s' ↔
      Runs (Issuing.addPasswordOnDevice now account password >>= last)
        (j, d) r s')
    (hlast : ∀ answer s, Makes IssueM.view (last answer) s [])
    (hkey : ∀ {answer s key s'}, Runs (last answer) s (.ok key) s' →
      key = answer.2)
    (hrun : Runs (IssueM.onIdentifier i op >>= fun answer =>
      store account answer.2 answer.1.wrapped) d (.error e) d') :
    ∃ done, IssueStop account password op i d done ∧
      d.view.Changed done d'.view ∧
      ∃ wrapped did canonical,
        done <+: resetChanges d.view.lookup account wrapped did canonical := by
  rcases Runs.bind_error.mp hrun with hwork | ⟨⟨key, i'⟩, d₁, hwork, hstore⟩
  · obtain ⟨r₀, i', hfailed, hr⟩ := IssueM.onIdentifier_iff.mp hwork
    cases r₀ with
    | ok key => cases hr
    | error e₀ =>
        rcases cases_of_passwordKey_error hlast ((hop _ _).mp hfailed) with
          ⟨hkept, hclean⟩
            | ⟨d₁, hdelete, ⟨hunmade, hclean⟩ | ⟨key, d₂, hmade, hclean⟩⟩
        · exact ⟨[], .kept hkept, hclean, [], "", [], List.nil_prefix⟩
        · refine ⟨_, .removed hdelete hunmade, ?_, [], "", [],
            List.prefix_append [_] _⟩
          exact (Custody.makes_delete.ok hdelete).trans_nil hclean
        · refine ⟨_, .replaced hdelete hmade ⟨e₀, _, hfailed⟩, ?_,
            key.wrapped, "", [], List.prefix_append ..⟩
          exact (Custody.changed_of_replace hdelete hmade).trans_nil hclean
  · have hissued := IssueM.onIdentifier_ok hwork
    obtain ⟨answer, s₁, hpassword, hrest⟩ :=
      Runs.bind_ok.mp ((hop _ _).mp hissued)
    obtain ⟨-, d₂, hdelete, hmade⟩ := Issuing.addPasswordOnDevice_ok hpassword
    obtain rfl := hkey hrest
    have hchanged :
        d.view.Changed
          (Custody.passwordChanges account answer.2.wrapped) d₁.view :=
      (Custody.changed_of_replace hdelete hmade).trans_nil
        ((hlast _ _).ok hrest)
    obtain ⟨later, hstop, hlater, hprefix⟩ := exists_storeStop hstore
    rw [hchanged.lookup] at hprefix
    exact ⟨_, .stored hissued hstop, hchanged.trans hlater, answer.2.wrapped,
      normalizeDid i'.did, i'.toDocument.canonicalBytes,
      (List.prefix_append_right_inj _).mpr hprefix⟩

/-- The rest of the issuing is the publishing of the anchors and the steps after
it. -/
theorem issueRest_eq (own : KeyPair) :
    issueRest now account password keys own =
      publishAnchors now keys own >>= fun _ =>
        Issuing.addPasswordOnDevice now account password >>= fun answer =>
          Issuing.addPasswordOnBinder now keys >>= fun _ =>
            Issuing.composeRecovery >>= fun _ => pure answer.2 := by
  simp only [issueRest, publishAnchors, bind_assoc]

/-- Publishing the anchors changes no record. -/
theorem makes_publishAnchors {own : KeyPair} {s : Identifier × Desk} :
    Makes IssueM.view (publishAnchors now keys own) s [] :=
  Issuing.makes_publish.bind fun _ _ _ => Issuing.makes_addBinder

/-- Publishing these keys takes nothing from the desk. -/
theorem desk_of_publishAnchors {own : KeyPair} {issued : Issued}
    (hrun : Runs (publishAnchors now keys own) (i, d) (.ok issued) (j, d')) :
    d' = d := by
  obtain ⟨device, ⟨k, d₁⟩, hdevice, hbinder⟩ := Runs.bind_ok.mp hrun
  obtain ⟨-, hs⟩ := Issuing.publish_ok hdevice
  obtain ⟨-, rfl⟩ := Prod.mk.inj hs
  obtain ⟨binder, -, hs⟩ := Issuing.addBinder_ok hbinder
  exact (Prod.mk.inj hs).2

/-- A creation that fails has made the changes up to the step where it fails. -/
theorem exists_createStop {e : Error}
    (hrun : Runs (createSteps now account password keys) d (.error e) d') :
    ∃ done, CreateStop now account password keys d done ∧
      d.view.Changed done d'.view ∧ ∃ own wrapped did canonical,
        done <+: createChanges d.view.lookup account own wrapped did
          canonical := by
  rw [createSteps_eq] at hrun
  rcases Runs.bind_error.mp hrun with hown | ⟨own, d₁, hown, hrest⟩
  · exact ⟨[], .own ⟨e, d', hown⟩, Custody.failsClean_spaceKey account hown,
      default, [], "", [], List.nil_prefix⟩
  have hstored := (Custody.spaceKey_ok hown).1
  obtain ⟨r, ⟨j, d₂⟩, hanchors⟩ :=
    Runs.ends (publishAnchors now keys own) (.new, d₁)
  cases r with
  | error e₀ =>
      refine ⟨_, .anchors hown ⟨e₀, _, hanchors⟩, ?_, own, [], "", [],
        List.prefix_append ..⟩
      have hissue :
          Runs (issueRest now account password keys own) (.new, d₁) (.error e₀)
            (j, d₂) := by
        rw [issueRest_eq, Runs.bind_of_error hanchors]
        exact ⟨rfl, rfl⟩
      have hwork := IssueM.onIdentifier_iff.mpr ⟨_, j, hissue, rfl⟩
      obtain ⟨-, rfl⟩ := (Runs.bind_of_error hwork).mp hrest
      exact hstored.trans_nil (makes_publishAnchors.error hanchors).nothing
  | ok issued =>
      obtain rfl := desk_of_publishAnchors hanchors
      obtain ⟨later, hstop, hlater, wrapped, did, canonical, hprefix⟩ :=
        exists_issueStop (j := j)
          (fun answer => Issuing.addPasswordOnBinder now keys >>= fun _ =>
            Issuing.composeRecovery >>= fun _ => pure answer.2)
          (fun r s' => by rw [issueRest_eq, Runs.bind_of_ok hanchors])
          (fun answer s =>
            Issuing.makes_addPasswordOnBinder.bind_nil fun _ _ _ =>
              Issuing.makes_composeRecovery.bind_nil fun _ _ _ => .pure _)
          (fun hlast => by
            obtain ⟨_, s₁, -, hlast⟩ := Runs.bind_ok.mp hlast
            obtain ⟨_, s₂, -, hend⟩ := Runs.bind_ok.mp hlast
            exact Except.ok.inj (Runs.pure_iff.mp hend).1)
          hrest
      rw [hstored.lookup] at hprefix
      exact ⟨_, .issue hown ⟨_, _, hanchors⟩ hstop, hstored.trans hlater, own,
        wrapped, did, canonical, (List.prefix_append_right_inj _).mpr hprefix⟩

/-- A reset that fails has made the changes up to the step where it fails. -/
theorem exists_resetStop {lookup : Lookup} {e : Error}
    (hrun : Runs (resetSteps now lookup password) d (.error e) d') :
    ∃ done, ResetStop now lookup password d done ∧ d.view.Changed done d'.view ∧
      (done = [] ∨ ∃ account wrapped did canonical,
        account? d.view.lookup lookup = some account ∧
        done <+: resetChanges d.view.lookup account wrapped did canonical) := by
  rcases Runs.bind_error.mp hrun with
    htarget | ⟨⟨account, i⟩, d₁, htarget, hrest⟩
  · exact ⟨[], .target ⟨e, d', htarget⟩,
      ((makes_resetTarget lookup).error htarget).nothing, .inl rfl⟩
  have hkept := (makes_resetTarget lookup).ok htarget
  obtain ⟨done, hstop, hdone, wrapped, did, canonical, hprefix⟩ :=
    exists_issueStop (j := (i.removeFragment Names.recoveryFragment).1)
      (fun answer => Issuing.composeRecovery >>= fun _ => pure answer.2)
      (fun r s' => by
        unfold reissuePassword
        rw [IssueM.identifier_bind, IssueM.setIdentifier_bind])
      (fun answer s => Issuing.makes_composeRecovery.bind_nil fun _ _ _ =>
        .pure _)
      (fun hlast => by
        obtain ⟨id, s₁, -, hend⟩ := Runs.bind_ok.mp hlast
        exact Except.ok.inj (Runs.pure_iff.mp hend).1)
      hrest
  refine ⟨done, .issue htarget hstop, hkept.trans hdone,
    .inr ⟨account, wrapped, did, canonical, (resetTarget_ok htarget).1, ?_⟩⟩
  rw [hkept.lookup] at hprefix
  exact hprefix

namespace Call

/-- Where the steps of a call fail, and what they have changed by then. -/
def Stops (d : Desk) (done : List Change) : Call → Prop
  | create now account password keys =>
      CreateStop now account password keys d done
  | reset now lookup password => ResetStop now lookup password d done
  | updatePassword account old new =>
      Fails (Custody.rotate account old new) d ∧ done = []
  | saveIndex account did => IndexStop account (normalizeDid did) d.view done

/-- Steps that fail stop somewhere in the plan of the call, with what stands in
it before made. -/
theorem exists_stops (c : Call) {e : Error}
    (hrun : Runs c.steps d (.error e) d') :
    ∃ plan done, c.Plan d.view.lookup plan ∧ done <+: plan ∧ c.Stops d done ∧
      d.view.Changed done d'.view := by
  cases c with
  | create now account password keys =>
      obtain ⟨done, hstop, hdone, own, wrapped, did, canonical, hprefix⟩ :=
        exists_createStop (Runs.map_error.mp hrun)
      exact ⟨_, done, ⟨own, wrapped, did, canonical, rfl⟩, hprefix,
        hstop, hdone⟩
  | reset now lookup password =>
      obtain ⟨done, hstop, hdone, rfl | ⟨account, wrapped, did, canonical,
        haccount, hprefix⟩⟩ := exists_resetStop (Runs.map_error.mp hrun)
      · obtain ⟨plan, hplan, -⟩ :=
          exists_makes_steps (reset now lookup password) d
        exact ⟨plan, [], hplan, List.nil_prefix, hstop, hdone⟩
      · refine ⟨_, done, ?_, hprefix, hstop, hdone⟩
        rw [Plan, haccount]
        exact ⟨wrapped, did, canonical, rfl⟩
  | updatePassword account old new =>
      have hfailed := Runs.map_error.mp hrun
      exact ⟨_, [], ⟨[], rfl⟩, List.nil_prefix, ⟨⟨e, d', hfailed⟩, rfl⟩,
        Custody.failsClean_rotate account old new hfailed⟩
  | saveIndex account did =>
      obtain ⟨e₀, v', hfailed, rfl⟩ := records_error (Runs.map_error.mp hrun)
      obtain ⟨done, hstop, hdone, hprefix⟩ := exists_indexStop hfailed
      exact ⟨_, done, rfl, hprefix, hstop, hdone⟩

end Call

end DidVault
