import DidVault.Proofs.Registry.Changes

/-!
# Calls of the registry

The calls that write are taken as data, so that one statement can be made of all
of them, and of sequences of them.  A call runs its steps as a whole
(`Call.run_of_closed`) or, in a transaction of the caller, as they are
(`Call.run_of_open`).

What the steps change when they succeed is fixed by what was visible before and
by the answer (`Call.Effect`).  When they fail, they have made a beginning of
what they had set out to change (`Call.Plan`).
-/

namespace DidVault

/-- A call of the registry that writes. -/
inductive Call where
  | create (now : Timestamp) (account password : String) (keys : List BinderKey)
  | reset (now : Timestamp) (lookup : Lookup) (password : String)
  | updatePassword (account old new : String)
  | saveIndex (account did : String)
  deriving Repr, DecidableEq

/-- What a call answers. -/
inductive Answer where
  | issued (document : IssuedDocument)
  | rewrapped (wrapped : Bytes)
  | indexed
  deriving Repr, DecidableEq

namespace Call

open Registry DeskM

variable {d d' : Desk} {answer : Answer} {e : Error}

/-- Carries out a call. -/
def run : Call → DeskM Answer
  | create now account password keys =>
      .issued <$> Registry.create now account password keys
  | reset now lookup password => .issued <$> Registry.reset now lookup password
  | updatePassword account old new =>
      .rewrapped <$> Registry.updatePassword account old new
  | saveIndex account did =>
      (fun _ => .indexed) <$> Registry.saveIndex account did

/-- What a call works through inside a transaction. -/
def steps : Call → DeskM Answer
  | create now account password keys =>
      .issued <$> createSteps now account password keys
  | reset now lookup password => .issued <$> resetSteps now lookup password
  | updatePassword account old new =>
      .rewrapped <$> Custody.rotate account old new
  | saveIndex account did =>
      (fun _ => .indexed) <$> records (.saveIndex account did)

/-- Renaming the result may as well be done inside the transaction. -/
theorem map_transactionally {α β : Type} {g : α → β} {op : DeskM α}
    {r : Except Error β} :
    Runs (g <$> transactionally op) d r d' ↔
      Runs (transactionally (g <$> op)) d r d' := by
  by_cases hopen : d.view.pending.isSome = true
  · rw [transactionally_of_open hopen, Runs.map_iff, Runs.map_iff]
    simp only [transactionally_of_open hopen]
  · have hclosed : d.view.pending = none := by simpa using hopen
    rw [transactionally_of_closed hclosed, Runs.map_iff]
    simp only [transactionally_of_closed hclosed, Runs.map_iff]
    constructor
    · rintro ⟨r₀, ⟨d₁, h, rfl⟩, rfl⟩
      exact ⟨d₁, ⟨r₀, h, rfl⟩, by cases r₀ <;> rfl⟩
    · rintro ⟨d₁, ⟨r₀, h, rfl⟩, rfl⟩
      exact ⟨r₀, ⟨d₁, h, by cases r₀ <;> rfl⟩, rfl⟩

/-- A call runs its steps in a transaction. -/
theorem run_iff (c : Call) {r : Except Error Answer} :
    Runs c.run d r d' ↔ Runs (transactionally c.steps) d r d' := by
  cases c with
  | create now account password keys =>
      rw [run, steps, create_eq]
      exact map_transactionally
  | reset now lookup password =>
      rw [run, steps, reset_eq]
      exact map_transactionally
  | updatePassword account old new => exact map_transactionally
  | saveIndex account did => exact map_transactionally

/-- In a transaction of the caller a call is just its steps. -/
theorem run_of_open (c : Call) {r : Except Error Answer}
    (hopen : d.view.pending.isSome = true) :
    Runs c.run d r d' ↔ Runs c.steps d r d' := by
  rw [run_iff, transactionally_of_open hopen]

/-- Outside a transaction a call runs its steps in one of its own. -/
theorem run_of_closed (c : Call) {r : Except Error Answer}
    (hclosed : d.view.pending = none) :
    Runs c.run d r d' ↔
      ∃ d₁, Runs c.steps { d with view := d.view.begin } r d₁ ∧
        d' = { d₁ with view := settle r d₁.view } := by
  rw [run_iff, transactionally_of_closed hclosed]

/-- What a call changes if it succeeds with an answer. -/
def Effect (look : Sight) : Call → Answer → List Change → Prop
  | create _ account _ _, .issued doc, changes =>
      ∃ own, changes = createChanges look account own doc.wrapped
        (normalizeDid doc.did) doc.document
  | reset _ lookup _, .issued doc, changes =>
      ∃ account, account? look lookup = some account ∧
        changes = resetChanges look account doc.wrapped
          (normalizeDid doc.did) doc.document
  | updatePassword account _ _, .rewrapped wrapped, changes =>
      changes = [(.passwordKey account, some wrapped)]
  | saveIndex account did, .indexed, changes =>
      changes = indexChanges look account (normalizeDid did)
  | _, _, _ => False

/-- A call that succeeds leaves the changes of its effect. -/
theorem changed_of_steps (c : Call) (hrun : Runs c.steps d (.ok answer) d') :
    ∃ changes, c.Effect d.view.lookup answer changes ∧
      d.view.Changed changes d'.view := by
  cases c with
  | create now account password keys =>
      obtain ⟨doc, h, rfl⟩ := Runs.map_ok.mp hrun
      obtain ⟨own, hchanged⟩ := changed_of_createSteps h
      exact ⟨_, ⟨own, rfl⟩, hchanged⟩
  | reset now lookup password =>
      obtain ⟨doc, h, rfl⟩ := Runs.map_ok.mp hrun
      obtain ⟨account, haccount, hchanged⟩ := changed_of_resetSteps h
      exact ⟨_, ⟨account, haccount, rfl⟩, hchanged⟩
  | updatePassword account old new =>
      obtain ⟨wrapped, h, rfl⟩ := Runs.map_ok.mp hrun
      exact ⟨_, rfl, Custody.rotate_ok h⟩
  | saveIndex account did =>
      obtain ⟨u, h, rfl⟩ := Runs.map_ok.mp hrun
      exact ⟨_, rfl,
        (makes_records (RecordsM.makes_saveIndex account did)).ok h⟩

/-- What a call sets out to change, as far as it comes. -/
def Plan (look : Sight) : Call → List Change → Prop
  | create _ account _ _, changes =>
      ∃ own wrapped did canonical,
        changes = createChanges look account own wrapped did canonical
  | reset _ lookup _, changes =>
      match account? look lookup with
      | some account =>
          ∃ wrapped did canonical,
            changes = resetChanges look account wrapped did canonical
      | none => changes = []
  | updatePassword account _ _, changes =>
      ∃ wrapped, changes = [(.passwordKey account, some wrapped)]
  | saveIndex account did, changes =>
      changes = indexChanges look account (normalizeDid did)

/-- Mapping the answer of an operation makes the same changes. -/
theorem map_makes {α β : Type} {g : α → β} {op : DeskM α}
    {changes : List Change} (hop : Makes Desk.view op d changes) :
    Makes Desk.view (g <$> op) d changes := by
  rw [map_eq_pure_bind]
  exact hop.bind_nil fun _ _ _ => .pure _

/-- Every call makes the changes of its plan, or a beginning of them. -/
theorem exists_makes_steps (c : Call) (d : Desk) :
    ∃ changes, c.Plan d.view.lookup changes ∧
      Makes Desk.view c.steps d changes := by
  cases c with
  | create now account password keys =>
      obtain ⟨own, wrapped, did, canonical, hmakes⟩ := exists_makes_createSteps
      exact ⟨_, ⟨own, wrapped, did, canonical, rfl⟩, map_makes hmakes⟩
  | reset now lookup password =>
      simp only [Plan]
      cases haccount : account? d.view.lookup lookup with
      | none => exact ⟨[], rfl, map_makes (makes_resetSteps_of_none haccount)⟩
      | some account =>
          obtain ⟨wrapped, did, canonical, hmakes⟩ :=
            exists_makes_resetSteps haccount
          exact ⟨_, ⟨wrapped, did, canonical, rfl⟩, map_makes hmakes⟩
  | updatePassword account old new =>
      have hmakes : ∃ wrapped : Bytes,
          Makes Desk.view (Custody.rotate account old new) d
            [(.passwordKey account, some wrapped)] :=
        Makes.exists_of_ok (fun wrapped d' hrun => Custody.rotate_ok hrun)
          fun e d' hrun => Custody.failsClean_rotate account old new hrun
      obtain ⟨wrapped, hmakes⟩ := hmakes
      exact ⟨_, ⟨wrapped, rfl⟩, map_makes hmakes⟩
  | saveIndex account did =>
      exact ⟨_, rfl,
        map_makes (makes_records (RecordsM.makes_saveIndex account did))⟩

/-- Creating the document of a new account fails if the client hands in no key,
but not before the account's own key has been stored. -/
theorem create_without_keys (now : Timestamp) (account password : String)
    (own : KeyPair) (hfree : ∀ n, d.view.refusal n = none)
    (habsent : d.view.lookup (Slot.spaceKey account).key = none)
    (hpool : d.pool.space = some own) :
    ∃ d', Runs (create now account password []).steps d
        (.error (.notFound "binder verification method")) d' ∧
      d'.view.lookup (Slot.spaceKey account).key =
        some (Utf8.encode own.privatePem) := by
  obtain ⟨d₁, hown⟩ := Custody.spaceKey_of_pool hfree habsent hpool
  have hstored : d₁.view.lookup (Slot.spaceKey account).key =
      some (Utf8.encode own.privatePem) := by
    rw [(Custody.spaceKey_ok hown).1.lookup, Custody.ownChanges, habsent]
    simp [Sight.after]
  let i : Identifier :=
    Identifier.new.published .device .rsa own.publicPem
      (Issuing.baseQuery now .device) none
  have hdevice : Runs (Issuing.publish .device .rsa own.publicPem
      (Issuing.baseQuery now .device) none) (.new, d₁) (.ok _) (i, d₁) :=
    Issuing.publish_of_fresh rfl
  have hbinder : Runs (Issuing.addBinder now []) (i, d₁)
      (.error (.notFound "binder verification method")) (i, d₁) :=
        Runs.throw_iff.mpr ⟨rfl, rfl⟩
  have hissue : Runs (issueRest now account password [] own) (.new, d₁)
      (.error (.notFound "binder verification method")) (i, d₁) :=
    (Runs.bind_of_ok hdevice).mpr ((Runs.bind_of_error hbinder).mpr ⟨rfl, rfl⟩)
  have hfailed : Runs (createRest now account password [] own) d₁
      (.error (.notFound "binder verification method")) d₁ := by
    have hwork := IssueM.onIdentifier_iff.mpr ⟨_, i, hissue, rfl⟩
    exact (Runs.bind_of_error hwork).mpr ⟨rfl, rfl⟩
  have hsteps : Runs (createSteps now account password []) d
      (.error (.notFound "binder verification method")) d₁ := by
    rw [createSteps_eq, Runs.bind_of_ok hown]
    exact hfailed
  exact ⟨d₁, Runs.map_iff.mpr ⟨_, hsteps, rfl⟩, hstored⟩

end Call

/-- A desk without records, for whose next account a pair of keys waits. -/
def Desk.waiting (own : KeyPair) (pending : Option Writes) : Desk where
  view := { committed := .empty, pending }
  pool := { space := some own }
  source := { outcome := fun _ => .error .exhausted }

end DidVault
