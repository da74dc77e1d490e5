import DidVault.Proofs.Did.Founded
import DidVault.Proofs.Keys.Pool
import DidVault.Proofs.Registry.Steps

/-!
# The supply of keys

The own key of an account is a pair that waits at the desk or one that will be
made (`Desk.Expects`).  Whatever is done at a desk, by calls that succeed and by
calls that fail, only uses this supply up (`Desk.Spent`).  A pair that has been
taken is not expected any more: if no two expected pairs found the same DID
(`Desk.Distinct`), it founds another one than all those that are still expected
(`DeskM.distinct_of_takeOrMake`).
-/

namespace DidVault

/-- The desk is the same but for the records, the random bytes and the pairs
that were used up. -/
structure Desk.Spent (d d' : Desk) : Prop where
  pool : d'.pool.space = d.pool.space ∨ d'.pool.space = none
  outcome : d'.source.outcome = d.source.outcome
  asked : d.source.asked ≤ d'.source.asked

/-- The pair may still become the own key of an account. -/
def Desk.Expects (d : Desk) (pair : KeyPair) : Prop :=
  d.pool.space = some pair ∨ ∃ n ≥ d.source.asked, d.source.outcome n = .ok pair

/-- Every expected pair is read back from its private key. -/
def Desk.Readable (d : Desk) : Prop :=
  ∀ ⦃pair⦄, d.Expects pair → KeyPair.ofPrivatePem pair.privatePem = some pair

/-- No two expected pairs found the same DID. -/
structure Desk.Distinct (d : Desk) : Prop where
  waiting : ∀ {n p q}, d.pool.space = some p → d.source.asked ≤ n →
    d.source.outcome n = .ok q → didOfKey p.publicPem ≠ didOfKey q.publicPem
  made : ∀ {m n p q}, d.source.asked ≤ m → m < n → d.source.outcome m = .ok p →
    d.source.outcome n = .ok q → didOfKey p.publicPem ≠ didOfKey q.publicPem

namespace Desk

variable {d d₁ d₂ : Desk} {pair : KeyPair}

/-- Nothing is spent at first. -/
theorem Spent.refl (d : Desk) : d.Spent d := ⟨.inl rfl, rfl, Nat.le_refl _⟩

/-- What was spent later was spent. -/
theorem Spent.trans (h₁ : d.Spent d₁) (h₂ : d₁.Spent d₂) : d.Spent d₂ where
  pool := by
    rcases h₂.pool with h | h
    · rw [h]
      exact h₁.pool
    · exact .inr h
  outcome := h₂.outcome.trans h₁.outcome
  asked := Nat.le_trans h₁.asked h₂.asked

/-- The records and the random bytes are no part of the supply. -/
theorem Spent.other (d : Desk) (view : View) (entropy : Bytes) :
    d.Spent { d with view, entropy } := ⟨.inl rfl, rfl, Nat.le_refl _⟩

/-- What is expected after some use was expected before it. -/
theorem Spent.expects (hspent : d.Spent d₁) (hpair : d₁.Expects pair) :
    d.Expects pair := by
  rcases hpair with h | ⟨n, hn, h⟩
  · rcases hspent.pool with hkept | hkept
    · exact .inl (hkept.symm.trans h)
    · rw [hkept] at h
      cases h
  · rw [hspent.outcome] at h
    exact .inr ⟨n, Nat.le_trans hspent.asked hn, h⟩

/-- The pairs that remain are readable. -/
theorem Spent.readable (hspent : d.Spent d₁) (hreadable : d.Readable) :
    d₁.Readable :=
  fun _ hpair => hreadable (hspent.expects hpair)

/-- The pairs that remain are distinct. -/
theorem Spent.distinct (hspent : d.Spent d₁) (hdistinct : d.Distinct) :
    d₁.Distinct where
  waiting hp hn hq := by
    rw [hspent.outcome] at hq
    rcases hspent.pool with h | h
    · exact hdistinct.waiting (h.symm.trans hp)
        (Nat.le_trans hspent.asked hn) hq
    · rw [h] at hp
      cases hp
  made hm hmn hp hq := by
    rw [hspent.outcome] at hp hq
    exact hdistinct.made (Nat.le_trans hspent.asked hm) hmn hp hq

end Desk

variable {α : Type} {d d' : Desk}

/-- Every run of the operation, failed or not, only uses the supply up. -/
abbrev Spends (op : DeskM α) : Prop := Keeps Desk.Spent op

/-- The same of an operation on an identifier at a desk. -/
abbrev IssueM.Spends (op : IssueM α) : Prop :=
  Keeps (fun s s' : Identifier × Desk => s.2.Spent s'.2) op

/-- Whatever is done at a desk only uses the supply up. -/
theorem spends : Pervades (fun _ => True) Spends IssueM.Spends where
  onRecords := ⟨fun _ => trivial, fun _ => trivial, fun _ _ => trivial⟩
  read? _ := trivial
  put _ _ := trivial
  delete _ := trivial
  onDesk := .keeps .refl .trans
  records _ d r d' hrun := by
    obtain ⟨r₀, v', -, rfl, -⟩ := DeskM.records_iff.mp hrun
    exact .other d v' d.entropy
  draw count shortage d r d' hrun := by
    have hdraw := DeskM.draw_iff.mp hrun
    split at hdraw
    · rw [hdraw.2]
      exact .refl d
    · rw [hdraw.2]
      exact .other d d.view _
  takeOrMake := by
    refine DeskM.takeOrMake_of_closed (.keeps .refl .trans)
      (fun purpose d r d' hrun => ?_) fun d r d' hrun => ?_
    · obtain ⟨-, rfl⟩ := DeskM.take_iff.mp hrun
      cases purpose with
      | space => exact ⟨.inr rfl, rfl, Nat.le_refl _⟩
      | password => exact ⟨.inl rfl, rfl, Nat.le_refl _⟩
    · obtain ⟨-, rfl⟩ := DeskM.makePair_iff.mp hrun
      exact ⟨.inl rfl, rfl, Nat.le_succ _⟩
  onIdentifiers := .keeps (fun s => .refl s.2) fun h₁ h₂ => h₁.trans h₂
  identifier s r s' hrun := by
    obtain ⟨-, rfl⟩ := IssueM.identifier_iff.mp hrun
    exact .refl _
  setIdentifier i s r s' hrun := by
    obtain ⟨-, rfl⟩ := Runs.modify_iff.mp hrun
    exact .refl s.2
  atDesk hop := by
    rintro ⟨i, d⟩ r s' hrun
    obtain ⟨d', h, rfl⟩ := IssueM.atDesk_iff.mp hrun
    exact hop h
  onIdentifier i hop d r d' hrun := by
    obtain ⟨r₀, i', h, -⟩ := IssueM.onIdentifier_iff.mp hrun
    exact hop h

namespace DeskM

/-- A pair that is taken for an account was expected. -/
theorem expects_of_takeOrMake {pair : KeyPair}
    (hrun : Runs (takeOrMake .space) d (.ok pair) d') : d.Expects pair := by
  rcases takeOrMake_cases hrun with ⟨p, hpool, h, -⟩ | ⟨-, hmake⟩
  · cases h
    exact .inl hpool
  · exact .inr ⟨d.source.asked, Nat.le_refl _, outcome_of_makePair hmake⟩

/-- A pair that has been taken for an account founds another DID than those that
are left. -/
theorem distinct_of_takeOrMake {pair other : KeyPair} (hdistinct : d.Distinct)
    (hrun : Runs (takeOrMake .space) d (.ok pair) d')
    (hother : d'.Expects other) :
    didOfKey pair.publicPem ≠ didOfKey other.publicPem := by
  rcases takeOrMake_cases hrun with ⟨p, hpool, h, rfl⟩ | ⟨hpool, hmake⟩
  · cases h
    rcases hother with hnone | ⟨n, hn, hmade⟩
    · cases hnone
    · exact hdistinct.waiting hpool hn hmade
  · have hpair := outcome_of_makePair hmake
    obtain ⟨-, rfl⟩ := makePair_iff.mp hmake
    rcases hother with hwaits | ⟨n, hn, hmade⟩
    · cases hwaits.symm.trans hpool
    · exact hdistinct.made (Nat.le_refl _) hn hpair hmade

end DeskM

/-- Every call, failed or not, only uses the supply up. -/
theorem Call.spends_run (c : Call) : Spends c.run := by
  intro d r d' hrun
  by_cases hopen : d.view.pending.isSome = true
  · exact spends.steps c ((c.run_of_open hopen).mp hrun)
  · have hclosed : d.view.pending = none := by simpa using hopen
    obtain ⟨d₁, hsteps, rfl⟩ := (c.run_of_closed hclosed).mp hrun
    have hspent := (Desk.Spent.other d _ _).trans (spends.steps c hsteps)
    exact hspent.trans (.other d₁ _ _)

end DidVault
