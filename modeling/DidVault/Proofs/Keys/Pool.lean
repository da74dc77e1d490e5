import DidVault.Proofs.Desk

/-!
# The pool at a desk

The slots of the pool do not meet: taking for one purpose leaves the pair of the
other alone (`leavesSlot_takeOrMake`).  A pair is taken from a slot, or made if
the slot is empty (`takeOrMake_cases`).  Filling makes pairs for empty slots
only (`fill_cases`), so that every pair that waits goes on waiting
(`keepsWaiting_pregenerate`), and in the end both slots are ready
(`ready_of_pregenerate`).
-/

namespace DidVault

namespace KeyPool

variable {pool : KeyPool} {purpose other : KeyPurpose}

/-- What is put in the place for a purpose is found there. -/
@[simp] theorem get_set_self (pool : KeyPool) (purpose : KeyPurpose)
    (pair : Option KeyPair) :
    (pool.set purpose pair).get purpose = pair := by
  cases purpose <;> rfl

/-- What is put in the place for one purpose leaves the others alone. -/
theorem get_set_of_ne (pair : Option KeyPair) (hne : other ≠ purpose) :
    (pool.set purpose pair).get other = pool.get other := by
  cases purpose <;> cases other <;> first | rfl | exact absurd rfl hne

/-- Nothing is taken from an empty slot. -/
theorem set_none_of_empty (hempty : pool.get purpose = none) :
    pool.set purpose none = pool := by
  obtain ⟨space, password⟩ := pool
  cases purpose <;> cases hempty <;> rfl

/-- A pair is ready for a purpose if one waits for it. -/
theorem isReady_iff :
    pool.isReady purpose = true ↔ ∃ pair, pool.get purpose = some pair :=
  Option.isSome_iff_exists

/-- No pair is ready for a purpose if none waits for it. -/
theorem isReady_eq_false_iff :
    pool.isReady purpose = false ↔ pool.get purpose = none :=
  Option.isSome_eq_false_iff.trans Option.isNone_iff_eq_none

end KeyPool

/-- Every pair that waits at the first desk waits at the second one. -/
def Desk.StillWaits (d d' : Desk) : Prop :=
  ∀ ⦃purpose pair⦄, d.pool.get purpose = some pair →
    d'.pool.get purpose = some pair

/-- At the same desk every pair still waits. -/
theorem Desk.StillWaits.refl (d : Desk) : d.StillWaits d := fun _ _ h => h

/-- A pair that waits still waits while the others are used. -/
theorem Desk.StillWaits.trans {d d₁ d₂ : Desk} (h₁ : d.StillWaits d₁)
    (h₂ : d₁.StillWaits d₂) : d.StillWaits d₂ :=
  fun _ _ h => h₂ (h₁ h)

namespace DeskM

variable {α : Type} {d d' : Desk} {purpose : KeyPurpose}

/-- The pair of an operation is the one that waits, or else it is made. -/
theorem takeOrMake_cases {r : Except Error KeyPair}
    (hrun : Runs (takeOrMake purpose) d r d') :
    (∃ pair, d.pool.get purpose = some pair ∧ r = .ok pair ∧
        d' = { d with pool := d.pool.set purpose none }) ∨
      (d.pool.get purpose = none ∧ Runs makePair d r d') := by
  have htake : Runs (take purpose) d (.ok (d.pool.get purpose))
      { d with pool := d.pool.set purpose none } := take_iff.mpr ⟨rfl, rfl⟩
  have hrest := (Runs.bind_of_ok htake).mp hrun
  cases hget : d.pool.get purpose with
  | some pair =>
      rw [hget] at hrest
      obtain ⟨rfl, rfl⟩ := Runs.pure_iff.mp hrest
      exact .inl ⟨pair, rfl, rfl, rfl⟩
  | none =>
      rw [hget, KeyPool.set_none_of_empty hget] at hrest
      exact .inr ⟨rfl, hrest⟩

/-- A slot that is ready is left alone; an empty one receives a new pair, if one
can be made. -/
theorem fill_cases {r : Except Error Unit} (hrun : Runs (fill purpose) d r d') :
    (d.pool.isReady purpose = true ∧ r = .ok () ∧ d' = d) ∨
      (d.pool.isReady purpose = false ∧
        ((∃ e, Runs makePair d (.error e) d' ∧ r = .error e) ∨
          ∃ pair d₁, Runs makePair d (.ok pair) d₁ ∧ r = .ok () ∧
            d' = { d₁ with pool := d₁.pool.set purpose (some pair) })) := by
  unfold fill at hrun
  rw [Runs.get_bind] at hrun
  cases hready : d.pool.isReady purpose with
  | true =>
      rw [if_pos hready] at hrun
      obtain ⟨rfl, rfl⟩ := Runs.pure_iff.mp hrun
      exact .inl ⟨rfl, rfl, rfl⟩
  | false =>
      rw [if_neg (by simp [hready])] at hrun
      refine .inr ⟨rfl, ?_⟩
      cases r with
      | error e =>
          rcases Runs.bind_error.mp hrun with hfailed | ⟨pair, d₁, -, hstored⟩
          · exact .inl ⟨e, hfailed, rfl⟩
          · cases (Runs.modify_iff.mp hstored).1
      | ok u =>
          obtain ⟨pair, d₁, hmade, hstored⟩ := Runs.bind_ok.mp hrun
          exact .inr ⟨pair, d₁, hmade, rfl, (Runs.modify_iff.mp hstored).2⟩

/-- A pair that was made is the next one of the source. -/
theorem outcome_of_makePair {pair : KeyPair}
    (hrun : Runs makePair d (.ok pair) d') :
    d.source.outcome d.source.asked = .ok pair := by
  obtain ⟨hmade, -⟩ := makePair_iff.mp hrun
  cases houtcome : d.source.outcome d.source.asked with
  | ok p =>
      rw [houtcome] at hmade
      exact congrArg Except.ok (Except.ok.inj hmade).symm
  | error fault =>
      rw [houtcome] at hmade
      cases hmade

/-- Making a pair takes none from the pool. -/
theorem pool_of_makePair {r : Except Error KeyPair}
    (hrun : Runs makePair d r d') : d'.pool = d.pool := by
  rw [(makePair_iff.mp hrun).2]

/-! ## Slots that are left alone -/

/-- Every run of the operation, failed or not, leaves the slot of a purpose as
it was. -/
def LeavesSlot (purpose : KeyPurpose) (op : DeskM α) : Prop :=
  Keeps (fun d d' => d'.pool.get purpose = d.pool.get purpose) op

/-- What is put together of steps that leave the place for a purpose alone
leaves it alone. -/
theorem closed_leavesSlot (purpose : KeyPurpose) :
    Closed fun {α : Type} (op : DeskM α) => LeavesSlot purpose op :=
  .keeps (fun _ => rfl) fun h₁ h₂ => h₂.trans h₁

/-- Taking a pair for one purpose leaves those for the others. -/
theorem leavesSlot_take {other : KeyPurpose} (hne : other ≠ purpose) :
    LeavesSlot other (take purpose) := by
  intro d r d' hrun
  obtain ⟨-, rfl⟩ := take_iff.mp hrun
  exact KeyPool.get_set_of_ne none hne

/-- Taking or making a pair for one purpose leaves those for the others. -/
theorem leavesSlot_takeOrMake {other : KeyPurpose} (hne : other ≠ purpose) :
    LeavesSlot other (takeOrMake purpose) := by
  intro d r d' hrun
  rcases takeOrMake_cases hrun with ⟨pair, -, -, rfl⟩ | ⟨-, hmade⟩
  · exact KeyPool.get_set_of_ne none hne
  · rw [pool_of_makePair hmade]

/-- An operation on the records takes no pair. -/
theorem leavesSlot_records (op : RecordsM α) :
    LeavesSlot purpose (records op) := by
  intro d r d' hrun
  obtain ⟨r₀, v', -, rfl, -⟩ := records_iff.mp hrun
  rfl

/-- Drawing random bytes takes no pair. -/
theorem leavesSlot_draw (count : Nat) (shortage : Error) :
    LeavesSlot purpose (draw count shortage) := by
  intro d r d' hrun
  have hdraw := draw_iff.mp hrun
  split at hdraw
  · rw [hdraw.2]
  · rw [hdraw.2]

/-! ## Filling the pool -/

/-- Filling the pool keeps the pairs that wait. -/
theorem keepsWaiting_fill (purpose : KeyPurpose) :
    Keeps Desk.StillWaits (fill purpose) := by
  intro d r d' hrun other pair hwaits
  rcases fill_cases hrun with
    ⟨-, -, rfl⟩ | ⟨hempty, ⟨e, hfailed, -⟩ | ⟨made, d₁, hmade, -, rfl⟩⟩
  · exact hwaits
  · rw [pool_of_makePair hfailed]
    exact hwaits
  · have hne : other ≠ purpose := by
      rintro rfl
      rw [KeyPool.isReady_eq_false_iff, hwaits] at hempty
      cases hempty
    show (d₁.pool.set purpose (some made)).get other = some pair
    rw [KeyPool.get_set_of_ne _ hne, pool_of_makePair hmade]
    exact hwaits

/-- Filling the pool, whether or not it succeeds, replaces no pair that
waits. -/
theorem keepsWaiting_pregenerate : Keeps Desk.StillWaits pregenerate :=
  (Closed.keeps .refl .trans).bind (keepsWaiting_fill .space) fun _ =>
    keepsWaiting_fill .password

/-- A purpose that was filled has a pair. -/
theorem ready_of_fill {u : Unit} (hrun : Runs (fill purpose) d (.ok u) d') :
    d'.pool.isReady purpose = true := by
  rcases fill_cases hrun with ⟨hready, -, rfl⟩
    | ⟨-, ⟨e, -, hr⟩ | ⟨pair, d₁, -, -, rfl⟩⟩
  · exact hready
  · cases hr
  · exact KeyPool.isReady_iff.mpr ⟨pair, KeyPool.get_set_self ..⟩

/-- When the pool has been filled, a pair waits for every purpose. -/
theorem ready_of_pregenerate {u : Unit} (hrun : Runs pregenerate d (.ok u) d')
    (purpose : KeyPurpose) :
    d'.pool.isReady purpose = true := by
  obtain ⟨u₁, d₁, hspace, hpassword⟩ := Runs.bind_ok.mp hrun
  cases purpose with
  | space =>
      obtain ⟨pair, hwaits⟩ := KeyPool.isReady_iff.mp (ready_of_fill hspace)
      exact KeyPool.isReady_iff.mpr
        ⟨pair, keepsWaiting_fill .password hpassword hwaits⟩
  | password => exact ready_of_fill hpassword

end DeskM

end DidVault
