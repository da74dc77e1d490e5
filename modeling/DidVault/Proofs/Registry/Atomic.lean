import DidVault.Proofs.Registry.Footprint

/-!
# Calls are carried out as a whole or not at all

Outside a transaction a call that fails leaves the committed records exactly as
they were, wherever it failed: at a call on the records that was refused, for
want of a key, or at a check.  A call that succeeds changes its footprint only,
and leaves what it answered in the records.
-/

namespace DidVault.Call

open DeskM

variable {d d' : Desk}

/-- The steps of a call change no committed record while a transaction is
open. -/
theorem committed_of_steps (c : Call) {r : Except Error Answer}
    (hopen : d.view.pending.isSome = true) (hrun : Runs c.steps d r d') :
    d'.view.committed = d.view.committed := by
  obtain ⟨changes, -, hmakes⟩ := exists_makes_steps c d
  cases r with
  | ok answer => exact (hmakes.ok hrun).committed hopen
  | error e =>
      obtain ⟨done, rest, -, hdone⟩ := hmakes.error hrun
      exact hdone.committed hopen

variable {r : Except Error Answer} {answer : Answer}

/-- A call outside a transaction ends outside of one. -/
theorem pending_of_run (c : Call) (hclosed : d.view.pending = none)
    (hrun : Runs c.run d r d') :
    d'.view.pending = none := by
  obtain ⟨d₁, -, rfl⟩ := (run_of_closed c hclosed).mp hrun
  cases r <;> rfl

/-- A call outside a transaction that succeeds leaves the store as willing as
it was. -/
theorem refusal_of_run (c : Call) (hclosed : d.view.pending = none)
    (hrun : Runs c.run d (.ok answer) d') :
    d'.view.refusal = d.view.refusal := by
  obtain ⟨d₁, hsteps, rfl⟩ := (run_of_closed c hclosed).mp hrun
  obtain ⟨changes, -, hchanged⟩ := changed_of_steps c hsteps
  exact hchanged.refusal

/-- A call outside a transaction that fails leaves the committed records as they
were. -/
theorem committed_of_failed {e : Error} (c : Call)
    (hclosed : d.view.pending = none) (hrun : Runs c.run d (.error e) d') :
    d'.view.committed = d.view.committed := by
  obtain ⟨d₁, hsteps, rfl⟩ := (run_of_closed c hclosed).mp hrun
  have hkept := committed_of_steps c rfl hsteps
  exact hkept

/-- What a call outside a transaction commits are the changes of its answer. -/
theorem committed_of_run (c : Call) (hclosed : d.view.pending = none)
    (hrun : Runs c.run d (.ok answer) d') :
    ∃ changes, c.Effect d.view.committed.get? answer changes ∧
      d'.view.committed.get? = Sight.after d.view.committed.get? changes := by
  obtain ⟨d₁, hsteps, rfl⟩ := (run_of_closed c hclosed).mp hrun
  obtain ⟨changes, heffect, hchanged⟩ := changed_of_steps c hsteps
  refine ⟨changes, heffect, ?_⟩
  show d₁.view.commit.committed.get? = _
  rw [View.get?_commit, hchanged.lookup]
  rfl

/-- A record outside the footprint of a call is as it was. -/
theorem kept_of_run {key : Bytes} (c : Call) (hclosed : d.view.pending = none)
    (hrun : Runs c.run d (.ok answer) d')
    (hkey : ∀ s ∈ c.footprint d.view.committed.get? answer, s.key ≠ key) :
    d'.view.committed.get? key = d.view.committed.get? key := by
  obtain ⟨changes, heffect, hcommitted⟩ := committed_of_run c hclosed hrun
  rw [hcommitted]
  exact frame heffect hkey

/-- What a call answered is stored. -/
theorem stored_of_run (c : Call) (hclosed : d.view.pending = none)
    (hrun : Runs c.run d (.ok answer) d') :
    c.Stored d.view.committed.get? d'.view.committed.get? answer := by
  obtain ⟨changes, heffect, hcommitted⟩ := committed_of_run c hclosed hrun
  rw [hcommitted]
  exact stored_of_effect heffect

/-- What holds of the committed records, and is kept by the steps of a call that
succeeds, holds after every call. -/
theorem committed_kept {P : Sight → Prop} (c : Call)
    (hclosed : d.view.pending = none) (hP : P d.view.committed.get?)
    (hsteps : ∀ d₀ d₁ answer,
      P d₀.view.lookup → Runs c.steps d₀ (.ok answer) d₁ → P d₁.view.lookup)
    (hrun : Runs c.run d r d') :
    P d'.view.committed.get? := by
  cases r with
  | error e =>
      rw [committed_of_failed c hclosed hrun]
      exact hP
  | ok answer =>
      obtain ⟨d₁, hcarried, rfl⟩ := (run_of_closed c hclosed).mp hrun
      show P d₁.view.commit.committed.get?
      rw [View.get?_commit]
      exact hsteps { d with view := d.view.begin } d₁ answer hP hcarried

/-- A call outside a transaction leaves the committed records as they were if it
fails; if it succeeds, it changes no record outside its footprint, and what it
answered is stored. -/
theorem atomic (c : Call) {r : Except Error Answer}
    (hclosed : d.view.pending = none) (hrun : Runs c.run d r d') :
    d'.view.pending = none ∧
      match r with
      | .error _ => d'.view.committed = d.view.committed
      | .ok answer =>
          (∀ key,
            (∀ s ∈ c.footprint d.view.committed.get? answer, s.key ≠ key) →
              d'.view.committed.get? key = d.view.committed.get? key) ∧
          c.Stored d.view.committed.get? d'.view.committed.get? answer := by
  refine ⟨pending_of_run c hclosed hrun, ?_⟩
  cases r with
  | error e => exact committed_of_failed c hclosed hrun
  | ok answer =>
      exact ⟨fun _ hkey => kept_of_run c hclosed hrun hkey,
        stored_of_run c hclosed hrun⟩

/-- A creation that fails after it stored the account's own key leaves no
record, and an indexed account is found. -/
theorem atomic_of_waiting :
    (∃ d', Runs (create ⟨0, 0⟩ "account" "password" []).run
          (Desk.waiting ⟨"private", "public"⟩ none)
          (.error (.notFound "binder verification method")) d' ∧
        d'.view.committed = .empty) ∧
      ∃ d', Runs (saveIndex "account" "did").run
          (Desk.waiting ⟨"private", "public"⟩ none) (.ok .indexed) d' ∧
        (saveIndex "account" "did").Stored
          (Table.get? .empty) d'.view.committed.get? .indexed := by
  constructor
  · have hsteps :=
      create_without_keys ⟨0, 0⟩ "account" "password" ⟨"private", "public"⟩
        (d := Desk.waiting ⟨"private", "public"⟩ (some .empty))
          (fun _ => rfl) rfl rfl
    obtain ⟨d₁, hsteps, -⟩ := hsteps
    have hrun :=
      (run_of_closed (d := Desk.waiting ⟨"private", "public"⟩ none) _ rfl).mpr
        ⟨d₁, hsteps, rfl⟩
    exact ⟨_, hrun, (atomic _ rfl hrun).2⟩
  · have hrun :
        Runs (saveIndex "account" "did").run
          (Desk.waiting ⟨"private", "public"⟩ none) (.ok .indexed)
            ((saveIndex "account" "did").run.run.run (Desk.waiting _ none)).2 :=
              rfl
    exact ⟨_, hrun, (atomic _ rfl hrun).2.2⟩

end DidVault.Call
