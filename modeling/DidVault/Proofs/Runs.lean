import DidVault.Issuing

/-!
# Runs of operations

`Runs op s r s'` says that an operation started in state `s` ends with outcome
`r` in state `s'`.  Operations on records, at a desk and on identifiers are all
of this kind, so that one set of inversion lemmas takes them apart: a run of a
block of steps is a run of its first step and a run of the rest (`Runs.bind_ok`,
`Runs.bind_error`).  When a block succeeds is said step by step in the same way
(`succeeds_bind`).

`Keeps R op` says that every run of `op`, failed or not, ends in a state that
`R` relates to the first one.  For a transitive relation it only has to be shown
of the single steps.  The same is true of `Commutes f op`, which says that `op`
does the same behind `f` as before it.  Such properties are `Closed`.
-/

namespace DidVault

variable {ε σ α β : Type}

/-- Started in `s`, the operation ends with `r` in `s'`. -/
def Runs (op : ExceptT ε (StateM σ) α) (s : σ) (r : Except ε α) (s' : σ) :
    Prop :=
  Id.run (op.run.run s) = (r, s')

namespace Runs

/-- Every operation ends in some way. -/
theorem total (op : ExceptT ε (StateM σ) α) (s : σ) :
    Runs op s (Id.run (op.run.run s)).1 (Id.run (op.run.run s)).2 := rfl

/-- Every operation ends with some result in some state. -/
theorem ends (op : ExceptT ε (StateM σ) α) (s : σ) : ∃ r s', Runs op s r s' :=
  ⟨_, _, total op s⟩

/-- An operation that is seen to succeed has an answer. -/
theorem exists_of_isOk {op : ExceptT ε (StateM σ) α} {s : σ}
    (hok : (Id.run (op.run.run s)).1.isOk = true) :
    ∃ a s', Runs op s (.ok a) s' := by
  have hrun := total op s
  cases houtcome : (Id.run (op.run.run s)).1 with
  | ok a =>
      rw [houtcome] at hrun
      exact ⟨a, _, hrun⟩
  | error e =>
      rw [houtcome] at hok
      cases hok

/-- An operation ends in one way only. -/
theorem unique {op : ExceptT ε (StateM σ) α} {s s₁ s₂ : σ} {r₁ r₂ : Except ε α}
    (h₁ : Runs op s r₁ s₁) (h₂ : Runs op s r₂ s₂) : r₁ = r₂ ∧ s₁ = s₂ := by
  have h := h₁.symm.trans h₂
  exact ⟨congrArg Prod.fst h, congrArg Prod.snd h⟩

/-- Operations with the same runs are the same. -/
theorem ext {x y : ExceptT ε (StateM σ) α}
    (h : ∀ s r s', Runs x s r s' ↔ Runs y s r s') : x = y :=
  funext fun s => ((h s _ _).mp (total x s)).symm

/-- A sequence runs its second part on the answer of the first, or ends with its
error. -/
theorem run_bind (x : ExceptT ε (StateM σ) α) (f : α → ExceptT ε (StateM σ) β)
    (s : σ) :
    Id.run ((x >>= f).run.run s) =
      match Id.run (x.run.run s) with
      | (.ok a, s') => Id.run ((f a).run.run s')
      | (.error e, s') => (.error e, s') := by
  simp only [ExceptT.run_bind, StateT.run_bind, Id.run_bind]
  rcases Id.run (x.run.run s) with ⟨_ | _, _⟩ <;> rfl

/-- A block of steps succeeds if its first step does, and then the rest. -/
@[simp] theorem bind_ok {x : ExceptT ε (StateM σ) α}
    {f : α → ExceptT ε (StateM σ) β} {s s' : σ} {b : β} :
    Runs (x >>= f) s (.ok b) s' ↔
      ∃ a s₁, Runs x s (.ok a) s₁ ∧ Runs (f a) s₁ (.ok b) s' := by
  unfold Runs
  rw [run_bind]
  rcases hx : Id.run (x.run.run s) with ⟨_ | a, s₁⟩
  · simp
  · constructor
    · intro h
      exact ⟨a, s₁, rfl, h⟩
    · rintro ⟨a', s₁', hx', h⟩
      cases hx'
      exact h

/-- A block of steps fails if its first step does, or else the rest. -/
@[simp] theorem bind_error {x : ExceptT ε (StateM σ) α}
    {f : α → ExceptT ε (StateM σ) β} {s s' : σ} {e : ε} :
    Runs (x >>= f) s (.error e) s' ↔
      Runs x s (.error e) s' ∨ ∃ a s₁, Runs x s (.ok a) s₁ ∧
      Runs (f a) s₁ (.error e) s' := by
  unfold Runs
  rw [run_bind]
  rcases hx : Id.run (x.run.run s) with ⟨e' | a, s₁⟩
  · simp
  · constructor
    · intro h
      exact .inr ⟨a, s₁, rfl, h⟩
    · rintro (h | ⟨a', s₁', hx', h⟩)
      · cases h
      · cases hx'
        exact h

/-- A plain answer leaves the state as it is. -/
@[simp] theorem pure_iff {a : α} {r : Except ε α} {s s' : σ} :
    Runs (pure a) s r s' ↔ r = .ok a ∧ s' = s := by
  show ((.ok a, s) : Except ε α × σ) = (r, s') ↔ _
  rw [Prod.mk.injEq, eq_comm, @eq_comm _ s]

/-- An error that is thrown leaves the state as it is. -/
@[simp] theorem throw_iff {e : ε} {r : Except ε α} {s s' : σ} :
    Runs (throw e) s r s' ↔ r = .error e ∧ s' = s := by
  show ((.error e, s) : Except ε α × σ) = (r, s') ↔ _
  rw [Prod.mk.injEq, eq_comm, @eq_comm _ s]

/-- Reading the state answers it. -/
@[simp] theorem get_iff {r : Except ε σ} {s s' : σ} :
    Runs (get : ExceptT ε (StateM σ) σ) s r s' ↔ r = .ok s ∧ s' = s := by
  show ((.ok s, s) : Except ε σ × σ) = (r, s') ↔ _
  rw [Prod.mk.injEq, eq_comm, @eq_comm _ s]

/-- Setting the state replaces it. -/
@[simp] theorem set_iff {t s s' : σ} {r : Except ε PUnit} :
    Runs (set t : ExceptT ε (StateM σ) PUnit) s r s' ↔ r = .ok ⟨⟩ ∧ s' = t := by
  show ((.ok ⟨⟩, t) : Except ε PUnit × σ) = (r, s') ↔ _
  rw [Prod.mk.injEq, eq_comm, @eq_comm _ t]

/-- Modifying the state applies the function to it. -/
@[simp] theorem modify_iff {f : σ → σ} {s s' : σ} {r : Except ε PUnit} :
    Runs (modify f : ExceptT ε (StateM σ) PUnit) s r s' ↔
      r = .ok ⟨⟩ ∧ s' = f s := by
  show ((.ok ⟨⟩, f s) : Except ε PUnit × σ) = (r, s') ↔ _
  rw [Prod.mk.injEq, eq_comm, @eq_comm _ (f s)]

/-- Behind a first step that succeeds, a block of steps is the rest of it. -/
theorem bind_of_ok {x : ExceptT ε (StateM σ) α} {f : α → ExceptT ε (StateM σ) β}
    {a : α} {r : Except ε β} {s s₁ s' : σ} (hx : Runs x s (.ok a) s₁) :
    Runs (x >>= f) s r s' ↔ Runs (f a) s₁ r s' := by
  have hx' : Id.run (x.run.run s) = (.ok a, s₁) := hx
  unfold Runs
  rw [run_bind, hx']

/-- Behind a first step that fails, nothing more happens. -/
theorem bind_of_error {x : ExceptT ε (StateM σ) α}
    {f : α → ExceptT ε (StateM σ) β} {e : ε} {r : Except ε β} {s s₁ s' : σ}
    (hx : Runs x s (.error e) s₁) :
    Runs (x >>= f) s r s' ↔ r = .error e ∧ s' = s₁ := by
  have hx' : Id.run (x.run.run s) = (.error e, s₁) := hx
  unfold Runs
  rw [run_bind, hx', Prod.mk.injEq, eq_comm, @eq_comm _ s₁]

/-- Looking at the state goes on with it. -/
@[simp] theorem get_bind {f : σ → ExceptT ε (StateM σ) β} {r : Except ε β}
    {s s' : σ} :
    Runs (get >>= f) s r s' ↔ Runs (f s) s r s' := by
  unfold Runs
  rw [run_bind]
  rfl

/-- Replacing the state goes on with the new one. -/
@[simp] theorem set_bind {t : σ} {f : PUnit → ExceptT ε (StateM σ) β}
    {r : Except ε β} {s s' : σ} :
    Runs (set t >>= f) s r s' ↔ Runs (f ⟨⟩) t r s' := by
  unfold Runs
  rw [run_bind]
  rfl

/-- Changing the state goes on with what it has become. -/
@[simp] theorem modify_bind {g : σ → σ} {f : PUnit → ExceptT ε (StateM σ) β}
    {r : Except ε β} {s s' : σ} :
    Runs (modify g >>= f) s r s' ↔ Runs (f ⟨⟩) (g s) r s' := by
  unfold Runs
  rw [run_bind]
  rfl

/-- When the outcome of a step is looked at, whatever it is, the rest goes on
from where the step ended. -/
@[simp] theorem attempt_bind {op : ExceptT ε (StateM σ) α}
    {f : Except ε α → ExceptT ε (StateM σ) β} {r : Except ε β} {s s' : σ} :
    Runs (ExceptT.mk (Except.ok <$> op.run) >>= f) s r s' ↔
      ∃ r₀ s₁, Runs op s r₀ s₁ ∧ Runs (f r₀) s₁ r s' := by
  have hstep : Runs (ExceptT.mk (Except.ok <$> op.run) >>= f) s r s' ↔
      Runs (f (Id.run (op.run.run s)).1) (Id.run (op.run.run s)).2 r s' := by
    unfold Runs
    rw [run_bind]
    rfl
  rw [hstep]
  constructor
  · intro h
    exact ⟨_, _, total op s, h⟩
  · rintro ⟨r₀, s₁, hop, h⟩
    obtain ⟨rfl, rfl⟩ := unique hop (total op s)
    exact h

/-- A result that is only renamed is the same run. -/
@[simp] theorem map_iff {g : α → β} {op : ExceptT ε (StateM σ) α}
    {r : Except ε β} {s s' : σ} :
    Runs (g <$> op) s r s' ↔ ∃ r₀, Runs op s r₀ s' ∧ r = r₀.map g := by
  cases r with
  | ok b =>
      rw [map_eq_pure_bind, bind_ok]
      constructor
      · rintro ⟨a, s₁, h, hdone⟩
        obtain ⟨hb, rfl⟩ := pure_iff.mp hdone
        exact ⟨.ok a, h, hb⟩
      · rintro ⟨r₀, h, hr⟩
        cases r₀ with
        | error e => cases hr
        | ok a =>
            cases hr
            exact ⟨a, s', h, pure_iff.mpr ⟨rfl, rfl⟩⟩
  | error e =>
      rw [map_eq_pure_bind, bind_error]
      constructor
      · rintro (h | ⟨a, s₁, -, hdone⟩)
        · exact ⟨.error e, h, rfl⟩
        · obtain ⟨hr, -⟩ := pure_iff.mp hdone
          cases hr
      · rintro ⟨r₀, h, hr⟩
        cases r₀ with
        | ok a => cases hr
        | error e₀ =>
            cases hr
            exact .inl h

/-- A result that was renamed is one of the operation. -/
theorem map_ok {g : α → β} {op : ExceptT ε (StateM σ) α} {b : β} {s s' : σ} :
    Runs (g <$> op) s (.ok b) s' ↔ ∃ a, Runs op s (.ok a) s' ∧ b = g a := by
  rw [map_iff]
  constructor
  · rintro ⟨r₀, h, hr⟩
    cases r₀ with
    | error e => cases hr
    | ok a => exact ⟨a, h, Except.ok.inj hr⟩
  · rintro ⟨a, h, rfl⟩
    exact ⟨.ok a, h, rfl⟩

/-- A failure has no result to rename. -/
theorem map_error {g : α → β} {op : ExceptT ε (StateM σ) α} {e : ε} {s s' : σ} :
    Runs (g <$> op) s (.error e) s' ↔ Runs op s (.error e) s' := by
  rw [map_iff]
  constructor
  · rintro ⟨r₀, h, hr⟩
    cases r₀ with
    | ok a => cases hr
    | error e₀ =>
        cases hr
        exact h
  · intro h
    exact ⟨.error e, h, rfl⟩

end Runs

/-- Started in `s`, the operation succeeds. -/
def Succeeds (op : ExceptT ε (StateM σ) α) (s : σ) : Prop :=
  ∃ a s', Runs op s (.ok a) s'

/-- Started in `s`, the operation fails. -/
def Fails (op : ExceptT ε (StateM σ) α) (s : σ) : Prop :=
  ∃ e s', Runs op s (.error e) s'

/-- A plain answer succeeds. -/
theorem succeeds_pure (a : α) (s : σ) :
    Succeeds (pure a : ExceptT ε (StateM σ) α) s :=
  ⟨a, s, Runs.pure_iff.mpr ⟨rfl, rfl⟩⟩

/-- A block of steps succeeds if its first step does, and the rest from there
on. -/
theorem succeeds_bind {x : ExceptT ε (StateM σ) α}
    {f : α → ExceptT ε (StateM σ) β} {s : σ} :
    Succeeds (x >>= f) s ↔ ∃ a s₁, Runs x s (.ok a) s₁ ∧ Succeeds (f a) s₁ := by
  constructor
  · rintro ⟨b, s', hrun⟩
    obtain ⟨a, s₁, hx, hrest⟩ := Runs.bind_ok.mp hrun
    exact ⟨a, s₁, hx, b, s', hrest⟩
  · rintro ⟨a, s₁, hx, b, s', hrest⟩
    exact ⟨b, s', Runs.bind_ok.mpr ⟨a, s₁, hx, hrest⟩⟩

/-- Every run of the operation ends in a state that `R` relates to the first
one. -/
def Keeps (R : σ → σ → Prop) (op : ExceptT ε (StateM σ) α) : Prop :=
  ∀ ⦃s r s'⦄, Runs op s r s' → R s s'

/-- Started behind `f`, the operation has the same outcome, and ends where `f`
leads from its end. -/
def Commutes (f : σ → σ) (op : ExceptT ε (StateM σ) α) : Prop :=
  ∀ ⦃s r s'⦄, Runs op s r s' → Runs op (f s) r (f s')

/-- The property holds of what ends at once, and of a block of steps if it holds
of each of them. -/
structure Closed (P : ∀ {α : Type}, ExceptT ε (StateM σ) α → Prop) : Prop where
  pure : ∀ {α : Type} (a : α), P (Pure.pure a : ExceptT ε (StateM σ) α)
  throw : ∀ {α : Type} (e : ε), P (MonadExcept.throw e : ExceptT ε (StateM σ) α)
  bind : ∀ {α β : Type} {x : ExceptT ε (StateM σ) α} {f : α →
    ExceptT ε (StateM σ) β}, P x → (∀ a, P (f a)) → P (x >>= f)

namespace Closed

/-- Keeping a relation of the states is closed under sequencing, if the relation
is reflexive and transitive. -/
theorem keeps {R : σ → σ → Prop} (hrefl : ∀ s, R s s)
    (htrans : ∀ {a b c}, R a b → R b c → R a c) :
    Closed fun {α : Type} (op : ExceptT ε (StateM σ) α) => Keeps R op where
  pure a s r s' h := by
    obtain ⟨-, rfl⟩ := Runs.pure_iff.mp h
    exact hrefl _
  throw e s r s' h := by
    obtain ⟨-, rfl⟩ := Runs.throw_iff.mp h
    exact hrefl _
  bind hx hf := by
    rintro s (e | b) s' h
    · rcases Runs.bind_error.mp h with h | ⟨a, s₁, h₁, h₂⟩
      · exact hx h
      · exact htrans (hx h₁) (hf a h₂)
    · obtain ⟨a, s₁, h₁, h₂⟩ := Runs.bind_ok.mp h
      exact htrans (hx h₁) (hf a h₂)

/-- Commuting with a map of the states is closed under sequencing. -/
theorem commutes (f : σ → σ) :
    Closed fun {α : Type} (op : ExceptT ε (StateM σ) α) => Commutes f op where
  pure a s r s' h := by
    obtain ⟨rfl, rfl⟩ := Runs.pure_iff.mp h
    exact Runs.pure_iff.mpr ⟨rfl, rfl⟩
  throw e s r s' h := by
    obtain ⟨rfl, rfl⟩ := Runs.throw_iff.mp h
    exact Runs.throw_iff.mpr ⟨rfl, rfl⟩
  bind hx hf := by
    rintro s (e | b) s' h
    · rcases Runs.bind_error.mp h with h | ⟨a, s₁, h₁, h₂⟩
      · exact Runs.bind_error.mpr (.inl (hx h))
      · exact Runs.bind_error.mpr (.inr ⟨a, f s₁, hx h₁, hf a h₂⟩)
    · obtain ⟨a, s₁, h₁, h₂⟩ := Runs.bind_ok.mp h
      exact Runs.bind_ok.mpr ⟨a, f s₁, hx h₁, hf a h₂⟩

variable {P : ∀ {α : Type}, ExceptT ε (StateM σ) α → Prop}

/-- A result may be renamed. -/
theorem map (h : Closed P) {g : α → β} {op : ExceptT ε (StateM σ) α}
    (hop : P op) : P (g <$> op) := by
  rw [map_eq_pure_bind]
  exact h.bind hop fun _ => h.pure _

end Closed

end DidVault
