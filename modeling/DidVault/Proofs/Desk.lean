import DidVault.Proofs.Records.Operations

/-!
# Runs at a desk

How operations on the records, draws and transactions run at a desk.  Inside an
open transaction an operation runs as it is (`transactionally_of_open`).
Outside it runs in a transaction of its own: if it succeeds, what was visible in
that transaction is committed, and if it fails, the committed records are what
they were (`Call.committed_of_failed`).
-/

namespace DidVault

/-- A desk without records that has no keys to give, but random bytes. -/
def Desk.bare (entropy : Bytes) : Desk where
  view := { committed := .empty }
  source := { outcome := fun _ => .error .exhausted }
  entropy

variable {α : Type} {d d' : Desk} {e : Error}

namespace DeskM

/-- An operation on the records changes the view of the desk and nothing else on
it. -/
theorem records_iff {op : RecordsM α} {r : Except Error α} :
    Runs (records op) d r d' ↔
      ∃ r₀ v', Runs op d.view r₀ v' ∧ d' = { d with view := v' } ∧
      r = r₀.mapError .store := by
  have hrun : ∀ r₀ v', Runs op d.view r₀ v' →
      Runs (records op) d (r₀.mapError .store) { d with view := v' } := by
    intro r₀ v' h
    have hop : op.run.run d.view = (r₀, v') := h
    unfold records
    rw [Runs.get_bind, hop]
    cases r₀ <;> simp [Except.mapError, Except.map]
  constructor
  · intro h
    have htotal := hrun _ _ (Runs.total op d.view)
    obtain ⟨rfl, rfl⟩ := Runs.unique h htotal
    exact ⟨_, _, Runs.total op d.view, rfl, rfl⟩
  · rintro ⟨r₀, v', h, rfl, rfl⟩
    exact hrun r₀ v' h

/-- What the records answer is what the operation on them answers. -/
theorem records_ok {op : RecordsM α} {a : α}
    (hrun : Runs (records op) d (.ok a) d') :
    ∃ v', Runs op d.view (.ok a) v' ∧ d' = { d with view := v' } := by
  obtain ⟨r₀, v', h, rfl, hr⟩ := records_iff.mp hrun
  cases r₀ with
  | error e => cases hr
  | ok a' =>
      cases hr
      exact ⟨v', h, rfl⟩

/-- What the records refuse is what fails the operation on them. -/
theorem records_error {op : RecordsM α}
    (hrun : Runs (records op) d (.error e) d') :
    ∃ e₀ v', Runs op d.view (.error e₀) v' ∧ d' = { d with view := v' } := by
  obtain ⟨r₀, v', h, rfl, hr⟩ := records_iff.mp hrun
  cases r₀ with
  | ok a => cases hr
  | error e₀ => exact ⟨e₀, v', h, rfl⟩

/-- An operation at the desk makes the changes of the one on its records. -/
theorem makes_records {op : RecordsM α} {changes : List Change}
    (hop : Makes id op d.view changes) :
    Makes Desk.view (records op) d changes where
  ok hrun := by
    obtain ⟨v', h, rfl⟩ := records_ok hrun
    exact hop.ok h
  error hrun := by
    obtain ⟨e₀, v', h, rfl⟩ := records_error hrun
    exact hop.error h

/-- It makes them at once, if that one does. -/
theorem atOnce_records {op : RecordsM α} {changes : List Change}
    (hop : MakesAtOnce id op d.view changes) :
    MakesAtOnce Desk.view (records op) d changes where
  ok hrun := by
    obtain ⟨v', h, rfl⟩ := records_ok hrun
    exact hop.ok h
  error hrun := by
    obtain ⟨e₀, v', h, rfl⟩ := records_error hrun
    exact hop.error h

/-- A result of keys is passed on, and the desk stays as it is. -/
@[simp] theorem ofKeys_iff {x : Except KeyError α} {r : Except Error α} :
    Runs (ofKeys x) d r d' ↔ r = x.mapError .key ∧ d' = d := by
  cases x <;> simp [ofKeys, Except.mapError]

/-- A pair is passed on only if there is one. -/
theorem ofKeys_ok {x : Except KeyError α} {a : α} :
    Runs (ofKeys x) d (.ok a) d' ↔ x = .ok a ∧ d' = d := by
  cases x <;> simp [Except.mapError, eq_comm]

/-- An error of keys is passed on only if there is one. -/
theorem ofKeys_error {x : Except KeyError α} :
    Runs (ofKeys x) d (.error e) d' ↔
      ∃ fault, x = .error fault ∧ e = .key fault ∧ d' = d := by
  cases x <;> simp [Except.mapError]

/-- A result of documents is passed on, and the desk stays as it is. -/
@[simp] theorem ofDid_iff {x : Except DidError α} {r : Except Error α} :
    Runs (ofDid x) d r d' ↔ r = x.mapError .did ∧ d' = d := by
  cases x <;> simp [ofDid, Except.mapError]

/-- What only takes keys and random bytes from the desk leaves the records
alone. -/
def LeavesView (op : DeskM α) : Prop :=
  Keeps (fun d d' => d'.view = d.view) op

/-- What is put together of steps that leave the records alone leaves them
alone. -/
theorem closed_leavesView : Closed LeavesView :=
  .keeps (fun _ => rfl) fun h₁ h₂ => h₂.trans h₁

/-- To leave the records alone is to make no change of them. -/
theorem LeavesView.makes {op : DeskM α} (hop : LeavesView op) (d : Desk) :
    Makes Desk.view op d [] where
  ok hrun := by rw [hop hrun]; exact .refl _
  error hrun := by rw [hop hrun]; exact .none (.refl _) _

/-- A result of keys that is passed on has no part in the records. -/
theorem leavesView_ofKeys (x : Except KeyError α) : LeavesView (ofKeys x) := by
  intro d r d' hrun
  obtain ⟨-, rfl⟩ := ofKeys_iff.mp hrun
  rfl

/-- A result of documents that is passed on has no part in the records. -/
theorem leavesView_ofDid (x : Except DidError α) : LeavesView (ofDid x) := by
  intro d r d' hrun
  obtain ⟨-, rfl⟩ := ofDid_iff.mp hrun
  rfl

/-- Random bytes come from the front of the supply, if there are enough of
them. -/
theorem draw_iff {count : Nat} {shortage : Error} {r : Except Error Bytes} :
    Runs (draw count shortage) d r d' ↔
      if d.entropy.length < count then r = .error shortage ∧ d' = d
      else r = .ok (d.entropy.take count) ∧
        d' = { d with entropy := d.entropy.drop count } := by
  unfold draw
  rw [Runs.get_bind]
  split
  · exact Runs.throw_iff
  · rw [Runs.set_bind]
    exact Runs.pure_iff

/-- Drawing random bytes has no part in the records. -/
theorem leavesView_draw (count : Nat) (shortage : Error) :
    LeavesView (draw count shortage) := by
  intro d r d' hrun
  have hdraw := draw_iff.mp hrun
  split at hdraw
  · rw [hdraw.2]
  · rw [hdraw.2]

/-- A pair that is made is the next one. -/
theorem makePair_iff {r : Except Error KeyPair} :
    Runs makePair d r d' ↔
      r = (d.source.outcome d.source.asked).mapError
        (fun fault => .key (.generation fault)) ∧
        d' =
          { d with source :=
            { d.source with asked := d.source.asked + 1 } } := by
  unfold makePair
  rw [Runs.get_bind, Runs.set_bind]
  cases d.source.outcome d.source.asked with
  | ok pair => exact Runs.pure_iff
  | error fault => exact Runs.throw_iff

/-- Making a pair has no part in the records. -/
theorem leavesView_makePair : LeavesView makePair := by
  intro d r d' hrun
  rw [(makePair_iff.mp hrun).2]

/-- Taking empties the place for the purpose, whatever it held. -/
theorem take_iff {purpose : KeyPurpose} {r : Except Error (Option KeyPair)} :
    Runs (take purpose) d r d' ↔
      r = .ok (d.pool.get purpose) ∧
      d' = { d with pool := d.pool.set purpose none } := by
  unfold take
  rw [Runs.get_bind, Runs.set_bind]
  exact Runs.pure_iff

/-- Taking a pair has no part in the records. -/
theorem leavesView_take (purpose : KeyPurpose) : LeavesView (take purpose) := by
  intro d r d' hrun
  rw [(take_iff.mp hrun).2]

/-- Taking a waiting pair, or making one if none waits. -/
theorem takeOrMake_of_closed {P : ∀ {α : Type}, DeskM α → Prop}
    (hclosed : Closed P) (htake : ∀ purpose, P (take purpose))
    (hmake : P makePair) (purpose : KeyPurpose) :
    P (takeOrMake purpose) := by
  refine hclosed.bind (htake purpose) fun found => ?_
  cases found with
  | some pair => exact hclosed.pure pair
  | none => exact hmake

/-- Failing with an error of keys, if there is one. -/
theorem ofKeys_of_closed {P : ∀ {α : Type}, DeskM α → Prop} (hclosed : Closed P)
    (x : Except KeyError α) : P (ofKeys x) := by
  cases x with
  | ok a => exact hclosed.pure a
  | error e => exact hclosed.throw _

/-- Taking a pair of keys or making one leaves the records alone. -/
theorem leavesView_takeOrMake (purpose : KeyPurpose) :
    LeavesView (takeOrMake purpose) :=
  takeOrMake_of_closed closed_leavesView leavesView_take
    leavesView_makePair purpose

/-- Random bytes are drawn alike, whatever else is on the desk. -/
theorem commutes_draw {f : Desk → Desk}
    (hentropy : ∀ d, (f d).entropy = d.entropy)
    (hleft : ∀ d entropy, f { d with entropy } = { f d with entropy })
    (count : Nat) (shortage : Error) :
    Commutes f (draw count shortage) := by
  intro d r d' hrun
  have hdraw := draw_iff.mp hrun
  refine draw_iff.mpr ?_
  rw [hentropy]
  split at hdraw
  · next hshort =>
      rw [if_pos hshort, hdraw.2]
      exact ⟨hdraw.1, rfl⟩
  · next hlong =>
      rw [if_neg hlong, hdraw.2, hleft]
      exact ⟨hdraw.1, rfl⟩

/-! Keys are taken alike, whatever the records are. -/

section Commutes

variable (g : View → View)

/-- A pair is made alike, whatever becomes of the records. -/
theorem commutes_makePair :
    Commutes (fun d : Desk => { d with view := g d.view }) makePair := by
  intro d r d' hrun
  obtain ⟨rfl, rfl⟩ := makePair_iff.mp hrun
  exact makePair_iff.mpr ⟨rfl, rfl⟩

/-- A pair is taken alike, whatever becomes of the records. -/
theorem commutes_take (purpose : KeyPurpose) :
    Commutes (fun d : Desk => { d with view := g d.view }) (take purpose) := by
  intro d r d' hrun
  obtain ⟨rfl, rfl⟩ := take_iff.mp hrun
  exact take_iff.mpr ⟨rfl, rfl⟩

end Commutes

/-- Whenever the operation fails, the records look as they did before. -/
def FailsClean (op : DeskM α) : Prop :=
  ∀ ⦃d e d'⦄, Runs op d (.error e) d' → d.view.Changed [] d'.view

namespace FailsClean

/-- What never changes a record does not do so when it fails. -/
theorem of_makes {op : DeskM α} (hop : ∀ d, Makes Desk.view op d []) :
    FailsClean op :=
  fun d _ _ hrun => ((hop d).error hrun).nothing

/-- Steps that change no record may come first. -/
theorem bind {β : Type} {x : DeskM α} {f : α → DeskM β}
    (hx : ∀ d, Makes Desk.view x d []) (hf : ∀ a, FailsClean (f a)) :
    FailsClean (x >>= f) := by
  intro d e d' hrun
  rcases Runs.bind_error.mp hrun with h | ⟨a, d₁, h₁, h₂⟩
  · exact ((hx d).error h).nothing
  · exact ((hx d).ok h₁).trans (hf a h₂)

/-- A record that is not written stays as it is. -/
theorem put (s : Slot) (value : Bytes) :
    FailsClean (records (.put s.text value)) := by
  intro d e d' hrun
  obtain ⟨e₀, v', h, rfl⟩ := records_error hrun
  exact RecordsM.put_error h

/-- An answer cannot fail. -/
theorem then_pure {β : Type} {x : DeskM α} {answer : α → β}
    (hx : FailsClean x) :
    FailsClean (x >>= fun a => pure (answer a)) := by
  intro d e d' hrun
  rcases Runs.bind_error.mp hrun with h | ⟨a, d₁, h₁, h₂⟩
  · exact hx h
  · obtain ⟨h, -⟩ := Runs.pure_iff.mp h₂
    cases h

end FailsClean

/-- Whenever the operation fails, the store has refused a call or held no
text. -/
def FailsByStore (op : DeskM α) : Prop :=
  ∀ ⦃d e d'⦄, Runs op d (.error e) d' → ∃ f, e = .store f

namespace FailsByStore

/-- An operation on the records fails with what the store says. -/
theorem records (op : RecordsM α) : FailsByStore (records op) := by
  intro d e d' hrun
  obtain ⟨r₀, v', -, -, hr⟩ := records_iff.mp hrun
  cases r₀ with
  | ok a => cases hr
  | error f => exact ⟨f, Except.error.inj hr⟩

/-- What ends at once does not fail. -/
theorem pure (a : α) : FailsByStore (Pure.pure a : DeskM α) := by
  intro d e d' hrun
  cases (Runs.pure_iff.mp hrun).1

/-- A block of steps fails by the store if each of its steps does. -/
theorem bind {β : Type} {x : DeskM α} {f : α → DeskM β} (hx : FailsByStore x)
    (hf : ∀ a, FailsByStore (f a)) :
    FailsByStore (x >>= f) := by
  intro d e d' hrun
  rcases Runs.bind_error.mp hrun with h | ⟨a, d₁, -, h⟩
  · exact hx h
  · exact hf a h

end FailsByStore

/-- Inside an open transaction an operation becomes a part of it. -/
theorem transactionally_of_open {op : DeskM α} {r : Except Error α}
    (hopen : d.view.pending.isSome = true) :
    Runs (transactionally op) d r d' ↔ Runs op d r d' := by
  unfold transactionally
  rw [Runs.get_bind, if_pos hopen]

/-- The end of a transaction whose operation ended in some way. -/
def settle {ε : Type} (r : Except ε α) (v : View) : View :=
  match r with
  | .ok _ => v.commit
  | .error _ => v.rollback

/-- Outside a transaction an operation runs in one of its own. -/
theorem transactionally_of_closed {op : DeskM α} {r : Except Error α}
    (hclosed : d.view.pending = none) :
    Runs (transactionally op) d r d' ↔
      ∃ d₁, Runs op { d with view := d.view.begin } r d₁ ∧
        d' = { d₁ with view := settle r d₁.view } := by
  unfold transactionally
  rw [Runs.get_bind, if_neg (by simp [hclosed]), Runs.modify_bind,
    Runs.attempt_bind]
  constructor
  · rintro ⟨r₀, d₁, hop, hclose⟩
    cases r₀ with
    | ok a =>
        rw [Runs.modify_bind] at hclose
        obtain ⟨rfl, rfl⟩ := Runs.pure_iff.mp hclose
        exact ⟨d₁, hop, rfl⟩
    | error e =>
        rw [Runs.modify_bind] at hclose
        obtain ⟨rfl, rfl⟩ := Runs.throw_iff.mp hclose
        exact ⟨d₁, hop, rfl⟩
  · rintro ⟨d₁, hop, rfl⟩
    refine ⟨r, d₁, hop, ?_⟩
    cases r with
    | ok a => exact Runs.modify_bind.mpr (Runs.pure_iff.mpr ⟨rfl, rfl⟩)
    | error e => exact Runs.modify_bind.mpr (Runs.throw_iff.mpr ⟨rfl, rfl⟩)

/-- An operation that succeeds, as a part of an open transaction or in one of
its own, was carried out on what was visible, and what it left visible stays
so. -/
theorem transactionally_ok {op : DeskM α} {a : α}
    (hrun : Runs (transactionally op) d (.ok a) d') :
    ∃ d₀ d₁, Runs op d₀ (.ok a) d₁ ∧
      d₀.view.lookup = d.view.lookup ∧ d'.view.lookup = d₁.view.lookup := by
  by_cases hopen : d.view.pending.isSome = true
  · exact ⟨d, d', (transactionally_of_open hopen).mp hrun, rfl, rfl⟩
  · have hclosed : d.view.pending = none := by simpa using hopen
    obtain ⟨d₁, hop, rfl⟩ := (transactionally_of_closed hclosed).mp hrun
    refine ⟨_, d₁, hop, ?_, View.lookup_commit d₁.view⟩
    rw [View.lookup_begin, View.lookup_of_closed hclosed]

end DeskM

end DidVault
