import DidVault.Proofs.Registry.Index

/-!
# Calls that fail have not come to the index

The index is the last thing that a call changes, and where the store refuses
nothing and the index holds texts, indexing does not fail (`sure_saveIndex`).
So a call that fails has only changed records beside the index
(`Call.aside_of_failed`), unless the store itself refused it.
-/

namespace DidVault

/-- `v'` comes from `v` by changes beside the index. -/
def View.Aside (v v' : View) : Prop :=
  ∃ done, v.Changed done v' ∧ ∀ c ∈ done, ¬ c.1.Indexes

/-- The store refuses nothing, and the index holds texts. -/
structure View.Ready (v : View) : Prop where
  free : ∀ n, v.refusal n = none
  text : ∀ s : Slot, s.Indexes → ∀ value, v.lookup s.key = some value → ∃ t,
    value = Utf8.encode t

namespace View

variable {v v₁ v₂ : View} {changes : List Change}

/-- What changes nothing sets nothing aside. -/
theorem Aside.unchanged (h : v.Changed [] v₁) : v.Aside v₁ :=
  ⟨[], h, nofun⟩

/-- Two steps that set nothing of the index aside set nothing aside together. -/
theorem Aside.trans (h₁ : v.Aside v₁) (h₂ : v₁.Aside v₂) : v.Aside v₂ := by
  obtain ⟨first, hfirst, haside⟩ := h₁
  obtain ⟨second, hsecond, haside'⟩ := h₂
  exact ⟨first ++ second, hfirst.trans hsecond,
    List.forall_mem_append.mpr ⟨haside, haside'⟩⟩

/-- A beginning of changes beside the index is beside it, too. -/
theorem Aside.partly (h : v.Partly changes v₁)
    (haside : ∀ c ∈ changes, ¬ c.1.Indexes) : v.Aside v₁ := by
  obtain ⟨done, rest, rfl, hdone⟩ := h
  exact ⟨done, hdone, fun c hc => haside c (List.mem_append_left _ hc)⟩

namespace Ready

/-- A view that is ready stays ready when only other records change. -/
theorem aside (h : v.Ready) (haside : v.Aside v₁) : v₁.Ready := by
  obtain ⟨done, hdone, hbeside⟩ := haside
  refine ⟨fun n => by rw [hdone.refusal, h.free n], fun s hs value hvalue => ?_⟩
  rw [hdone.lookup, Sight.after_slot fun c hc heq => hbeside c hc (heq ▸ hs)]
    at hvalue
  exact h.text s hs value hvalue

/-- A text may be put into the index. -/
theorem changed {s : Slot} {written : Option Bytes} (h : v.Ready)
    (hchanged : v.Changed [(s, written)] v₁)
    (htext : s.Indexes → ∀ value, written = some value → ∃ t,
      value = Utf8.encode t) : v₁.Ready := by
  refine ⟨fun n => by rw [hchanged.refusal, h.free n],
    fun t ht value hvalue => ?_⟩
  rw [hchanged.lookup] at hvalue
  by_cases hslot : s = t
  · subst hslot
    exact htext ht value (by simpa [Sight.after] using hvalue)
  · exact h.text t ht value (by simpa [Sight.after, hslot] using hvalue)

end Ready

end View

variable {ε σ α β : Type}

/-- Where the store refuses nothing and the index holds texts, the operation
succeeds, and leaves it so.  The records are the part `view` of the state. -/
def Sure (view : σ → View) (op : ExceptT ε (StateM σ) α) : Prop :=
  ∀ ⦃s r s'⦄, (view s).Ready → Runs op s r s' → (∃ a, r = .ok a) ∧
    (view s').Ready

namespace Sure

variable {view : σ → View}

/-- A plain answer raises no error. -/
theorem pure (a : α) : Sure view (Pure.pure a : ExceptT ε (StateM σ) α) := by
  intro s r s' hready hrun
  obtain ⟨rfl, rfl⟩ := Runs.pure_iff.mp hrun
  exact ⟨⟨a, rfl⟩, hready⟩

/-- One sure operation after another is sure. -/
theorem bind {x : ExceptT ε (StateM σ) α} {f : α → ExceptT ε (StateM σ) β}
    (hx : Sure view x) (hf : ∀ a, Sure view (f a)) : Sure view (x >>= f) := by
  intro s r s' hready hrun
  obtain ⟨r₁, s₁, h₁⟩ := Runs.ends x s
  obtain ⟨⟨a, rfl⟩, hready₁⟩ := hx hready h₁
  exact hf a hready₁ ((Runs.bind_of_ok h₁).mp hrun)

/-- A sure operation raises no error where the view is ready. -/
theorem not_error {op : ExceptT ε (StateM σ) α} {s s' : σ} {e : ε}
    (hop : Sure view op) (hready : (view s).Ready) :
    ¬ Runs op s (.error e) s' := by
  intro hrun
  obtain ⟨⟨a, h⟩, -⟩ := hop hready hrun
  cases h

end Sure

namespace RecordsM

variable {s : Slot}

/-- Writing a record is sure, if what goes to the index is a text. -/
theorem sure_put (s : Slot) (value : Bytes)
    (htext : s.Indexes → ∃ t, value = Utf8.encode t) :
    Sure id (put s.text value) := by
  intro v r v' hready hrun
  have hdone := put_of_unrefused s value (hready.free v.calls)
  obtain ⟨rfl, -⟩ := Runs.unique hrun hdone
  refine ⟨⟨(), rfl⟩,
    hready.changed ((makes_put value).ok hrun) fun hs bytes hbytes => ?_⟩
  cases hbytes
  exact htext hs

/-- Removing what is to be removed is sure. -/
theorem sure_deleteAny (slot : Option Slot) : Sure id (deleteAny slot) := by
  cases slot with
  | none => exact .pure ()
  | some s =>
      intro v r v' hready hrun
      have hdone := delete_of_unrefused s (hready.free v.calls)
      obtain ⟨rfl, -⟩ := Runs.unique hrun hdone
      exact ⟨⟨(), rfl⟩, hready.changed (makes_delete.ok hrun) fun _ => nofun⟩

/-- Reading a record of the index is sure, since only texts stand there. -/
theorem sure_readText? (what : String) (hs : s.Indexes) :
    Sure id (readText? what s.text) := by
  intro v r v' hready hrun
  have hfree : v.refusal v.calls = none := hready.free v.calls
  obtain ⟨found, hfound⟩ : ∃ found : Option String,
      v.lookup s.key = found.map Utf8.encode := by
    cases hvalue : v.lookup s.key with
    | none => exact ⟨none, rfl⟩
    | some value =>
        obtain ⟨text, rfl⟩ := hready.text s hs value hvalue
        exact ⟨some text, rfl⟩
  have hdone := readText?_of_found what hfound
  rw [hfree] at hdone
  obtain ⟨rfl, rfl⟩ := Runs.unique hrun hdone
  exact ⟨⟨found, rfl⟩, hready.aside (.unchanged (.counted ..))⟩

/-- Indexing does not fail by itself. -/
theorem sure_saveIndex (account did : String) :
    Sure id (saveIndex account did) := by
  rw [saveIndex_eq]
  refine (sure_readText? (s := .didOf account) _ trivial).bind fun previous =>
    ?_
  refine (sure_deleteAny _).bind fun _ => ?_
  refine (sure_readText? (s := .accountOf (normalizeDid did)) _ trivial).bind
    fun owner => ?_
  refine (sure_deleteAny _).bind fun _ => ?_
  exact (sure_put _ _ fun _ => ⟨_, rfl⟩).bind fun _ =>
    sure_put _ _ fun _ => ⟨_, rfl⟩

end RecordsM

/-- What is sure on the records is sure at the desk. -/
theorem Sure.records {op : RecordsM α} (hop : Sure id op) :
    Sure Desk.view (DeskM.records op) := by
  intro d r d' hready hrun
  obtain ⟨r₀, v', h, rfl, rfl⟩ := DeskM.records_iff.mp hrun
  obtain ⟨⟨a, rfl⟩, hready'⟩ := hop hready h
  exact ⟨⟨a, rfl⟩, hready'⟩

namespace Registry

open DeskM

variable {d d' : Desk} {account : String} {i : Identifier} {e : Error}

/-- A valid document is stored. -/
theorem sure_store (hvalid : i.toDocument.validate = .ok ()) (account : String)
    (wrapped : Bytes) :
    Sure Desk.view (store account i wrapped) := by
  rw [store_eq, hvalid]
  refine (Sure.pure ()).bind fun _ => ?_
  refine (RecordsM.sure_readText? (s := .didOf account) _ trivial).records.bind
    fun previous => ?_
  refine (RecordsM.sure_deleteAny _).records.bind fun _ => ?_
  refine (RecordsM.sure_put (.document (normalizeDid i.did)) _
    False.elim).records.bind fun _ => ?_
  exact (RecordsM.sure_saveIndex account i.did).records.bind fun _ => .pure _

/-- A document that is not stored is not valid, unless the store refused a
call. -/
theorem store_error {wrapped : Bytes}
    (hcause : (∀ f, e ≠ .store f) ∨ d.view.Ready)
    (hrun : Runs (store account i wrapped) d (.error e) d') :
    d.view.Changed [] d'.view := by
  cases hvalid : i.toDocument.validate with
  | error fault =>
      rw [store_eq, hvalid] at hrun
      have hcheck :
          Runs (ofDid (α := Unit) (.error fault)) d (.error (.did fault)) d :=
        ofDid_iff.mpr ⟨rfl, rfl⟩
      rw [((Runs.bind_of_error hcheck).mp hrun).2]
      exact .refl _
  | ok u =>
      exfalso
      rcases hcause with hother | hready
      · rw [store_eq, hvalid] at hrun
        -- the steps behind the check are operations on the records
        have hstore : ∃ f, e = .store f := by
          refine FailsByStore.bind (.pure ()) (fun _ => ?_) hrun
          exact .bind (.records _) fun _ => .bind (.records _) fun _ =>
            .bind (.records _) fun _ =>
              .bind (.records _) fun _ => .pure _
        obtain ⟨f, hf⟩ := hstore
        exact hother f hf
      · exact (sure_store hvalid account wrapped).not_error hready hrun

/-- Work on an identifier that fails, or whose document is not stored, has not
come to the index. -/
theorem aside_of_stored {op : IssueM PasswordKey} {keys : List Change}
    (hop : Makes IssueM.view op (i, d) keys) (hkeys : ∀ c ∈ keys, ¬ c.1.Indexes)
    (hcause : (∀ f, e ≠ .store f) ∨ d.view.Ready)
    (hrun : Runs (IssueM.onIdentifier i op >>= fun answer =>
      store account answer.2 answer.1.wrapped) d (.error e) d') :
    d.view.Aside d'.view := by
  have hdone := IssueM.makes_onIdentifier hop
  rcases Runs.bind_error.mp hrun with h | ⟨answer, d₁, h, hstore⟩
  · exact .partly (hdone.error h) hkeys
  · have hissued : d.view.Aside d₁.view := ⟨keys, hdone.ok h, hkeys⟩
    exact hissued.trans
      (.unchanged (store_error (hcause.imp_right (·.aside hissued)) hstore))

/-- A creation that fails for another reason than the store leaves the index as
it was. -/
theorem aside_of_createSteps {now : Timestamp} {password : String}
    {keys : List BinderKey} (hcause : (∀ f, e ≠ .store f) ∨ d.view.Ready)
    (hrun : Runs (createSteps now account password keys) d (.error e) d') :
    d.view.Aside d'.view := by
  rw [createSteps_eq] at hrun
  rcases Runs.bind_error.mp hrun with hown | ⟨own, d₁, hown, hrest⟩
  · exact .unchanged (Custody.failsClean_spaceKey account hown)
  · have hfirst : d.view.Aside d₁.view :=
      ⟨_, (Custody.spaceKey_ok hown).1, aside_of_ownChanges⟩
    obtain ⟨wrapped, hissue⟩ : ∃ wrapped,
        Makes IssueM.view (issueRest now account password keys own) (.new, d₁)
          (Custody.passwordChanges account wrapped) := exists_makes_issueRest
    exact hfirst.trans (aside_of_stored hissue aside_of_passwordChanges
      (hcause.imp_right (·.aside hfirst)) hrest)

/-- A reset that fails for another reason than the store leaves the index as it
was. -/
theorem aside_of_resetSteps {now : Timestamp} {lookup : Lookup}
    {password : String} (hcause : (∀ f, e ≠ .store f) ∨ d.view.Ready)
    (hrun : Runs (resetSteps now lookup password) d (.error e) d') :
    d.view.Aside d'.view := by
  rcases Runs.bind_error.mp hrun with htarget | ⟨target, d₁, htarget, hrest⟩
  · exact .unchanged ((makes_resetTarget lookup).error htarget).nothing
  · have hfirst : d.view.Aside d₁.view :=
      .unchanged ((makes_resetTarget lookup).ok htarget)
    obtain ⟨wrapped, hissue⟩ : ∃ wrapped,
        Makes IssueM.view (reissuePassword now target.1 password) (target.2, d₁)
          (Custody.passwordChanges target.1 wrapped) :=
            exists_makes_reissuePassword
    exact hfirst.trans (aside_of_stored hissue aside_of_passwordChanges
      (hcause.imp_right (·.aside hfirst)) hrest)

end Registry

open Registry DeskM

/-- A call that fails has not come to the index, unless the store refused it. -/
theorem Call.aside_of_failed {d d' : Desk} {e : Error} (c : Call)
    (hcause : (∀ f, e ≠ .store f) ∨ d.view.Ready)
    (hrun : Runs c.steps d (.error e) d') : d.view.Aside d'.view := by
  cases c with
  | create now account password keys =>
      exact aside_of_createSteps hcause (Runs.map_error.mp hrun)
  | reset now lookup password =>
      exact aside_of_resetSteps hcause (Runs.map_error.mp hrun)
  | updatePassword account old new =>
      exact .unchanged
        (Custody.failsClean_rotate account old new (Runs.map_error.mp hrun))
  | saveIndex account did =>
      have hfailed := Runs.map_error.mp hrun
      rcases hcause with hother | hready
      · obtain ⟨f, hf⟩ := FailsByStore.records _ hfailed
        exact absurd hf (hother f)
      · exact absurd hfailed
          ((RecordsM.sure_saveIndex account did).records.not_error hready)

end DidVault
