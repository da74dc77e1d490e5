import DidVault.Proofs.Registry.Aside
import DidVault.Proofs.Registry.Atomic
import DidVault.Proofs.Registry.Listing

/-!
# The index stays one to one

From a desk without records any calls are made, outside transactions and in
transactions of the caller; some succeed and some fail (`Visited`).  Calls that
succeed keep the two directions of the index inverse to each other.  A call that
fails outside a transaction changes nothing, and one that fails in a transaction
of the caller has not come to the index yet, unless the store itself refused it;
then the caller takes the transaction back.

So the index is one to one at every desk that is visited, both as it is visible
and as it is committed, every indexing is found afterwards, and the accounts are
listed (`Registry.oneToOne_of_visited`).
-/

namespace DidVault

open Registry DeskM

/-- The index is one to one, and there is nothing but records of accounts. -/
structure Sight.Orderly (look : Sight) : Prop extends Sight.Paired look where
  slotted : look.Slotted

namespace Sight.Orderly

variable {look : Sight} {changes : List Change}

/-- A store without records is orderly. -/
theorem start : Orderly (Table.get? .empty) where
  toPaired := .start
  slotted _ _ h := nomatch h

/-- What a call on the registry leaves of an orderly store is orderly again. -/
theorem after_effect {call : Call} {answer : Answer} (h : look.Orderly)
    (heffect : call.Effect look answer changes) :
    (look.after changes).Orderly where
  toPaired := h.toPaired.of_effect heffect
  slotted := h.slotted.after changes

/-- Changes beside the index keep the lookups orderly. -/
theorem of_aside {v v' : View} (h : Orderly v.lookup) (haside : v.Aside v') :
    Orderly v'.lookup := by
  obtain ⟨done, hdone, hbeside⟩ := haside
  rw [hdone.lookup]
  exact ⟨h.toPaired.after_aside hbeside, h.slotted.after done⟩

end Sight.Orderly

/-- The desks that are reached by calls, outside transactions and in
transactions of the caller. If the store refuses a call in a transaction of the
caller, the caller takes this transaction back (`giveUp`). -/
inductive Visited (start : Desk) : Desk → Prop where
  | start : Visited start start
  | call {d d' : Desk} {c : Call} {r : Except Error Answer}
      (hvisited : Visited start d) (hrun : Runs c.run d r d')
      (hcause : ∀ f, r = .error (.store f) →
        d.view.pending = none ∨ ∀ n, d.view.refusal n = none) : Visited start d'
  | begin {d : Desk}
      (hvisited : Visited start d) (hclosed : d.view.pending = none) :
      Visited start { d with view := d.view.begin }
  | commit {d : Desk}
      (hvisited : Visited start d) :
        Visited start { d with view := d.view.commit }
  | rollback {d : Desk}
      (hvisited : Visited start d) :
        Visited start { d with view := d.view.rollback }
  | giveUp {d d' : Desk} {c : Call} {e : Error}
      (hvisited : Visited start d) (hrun : Runs c.run d (.error e) d') :
      Visited start { d' with view := d'.view.rollback }

/-- The records are orderly, as they are visible and as they are committed. -/
structure Desk.Orderly (d : Desk) : Prop where
  visible : Sight.Orderly d.view.lookup
  stored : Sight.Orderly d.view.committed.get?

namespace Desk.Orderly

variable {d d' : Desk}

/-- Between transactions the committed records are the ones that are seen. -/
theorem of_closed (hclosed : d.view.pending = none)
    (hstored : Sight.Orderly d.view.committed.get?) : d.Orderly where
  visible := by
    rw [View.lookup_of_closed hclosed]
    exact hstored
  stored := hstored

/-- A desk over an empty store is orderly. -/
theorem start (hclosed : d.view.pending = none)
    (hempty : d.view.committed = .empty) : d.Orderly := by
  refine of_closed hclosed ?_
  rw [hempty]
  exact .start

/-- Opening a transaction changes neither of the two lookups. -/
theorem begin (h : d.Orderly) :
    { d with view := d.view.begin : Desk }.Orderly where
  visible := by
    rw [View.lookup_begin]
    exact h.stored
  stored := h.stored

/-- Committing makes what was seen the committed records. -/
theorem commit (h : d.Orderly) :
    { d with view := d.view.commit : Desk }.Orderly := by
  refine of_closed rfl ?_
  show Sight.Orderly d.view.commit.committed.get?
  rw [View.get?_commit]
  exact h.visible

/-- A rollback returns to the committed records, which are orderly too. -/
theorem rollback (h : d.Orderly) :
    { d with view := d.view.rollback : Desk }.Orderly :=
  of_closed rfl h.stored

/-- The steps of a call leave the records orderly while a transaction is open,
unless the store refused them. -/
theorem of_steps {c : Call} {r : Except Error Answer} (h : d.Orderly)
    (hopen : d.view.pending.isSome = true)
    (hcause : ∀ f, r = .error (.store f) → ∀ n, d.view.refusal n = none)
    (hrun : Runs c.steps d r d') : d'.Orderly where
  visible := by
    cases r with
    | ok answer =>
        obtain ⟨changes, heffect, hchanged⟩ := c.changed_of_steps hrun
        rw [hchanged.lookup]
        exact h.visible.after_effect heffect
    | error e =>
        refine h.visible.of_aside (c.aside_of_failed ?_ hrun)
        -- a store that refuses nothing fails for want of text only, and the
        -- index holds texts
        by_cases hstore : ∃ f, e = .store f
        · obtain ⟨f, rfl⟩ := hstore
          exact .inr ⟨hcause f rfl, h.visible.text⟩
        · exact .inl fun f hf => hstore ⟨f, hf⟩
  stored := by
    rw [c.committed_of_steps hopen hrun]
    exact h.stored

/-- A call keeps the records orderly, unless the store refuses it in a
transaction of the caller. -/
theorem call {c : Call} {r : Except Error Answer} (h : d.Orderly)
    (hcause : ∀ f, r = .error (.store f) →
      d.view.pending = none ∨ ∀ n, d.view.refusal n = none)
    (hrun : Runs c.run d r d') : d'.Orderly := by
  by_cases hopen : d.view.pending.isSome = true
  · refine h.of_steps hopen (fun f hf => ?_) ((c.run_of_open hopen).mp hrun)
    refine (hcause f hf).resolve_left fun hclosed => ?_
    rw [hclosed] at hopen
    cases hopen
  · have hclosed : d.view.pending = none := by simpa using hopen
    cases r with
    | ok answer =>
        obtain ⟨d₁, hsteps, rfl⟩ := (c.run_of_closed hclosed).mp hrun
        refine (h.begin.of_steps rfl ?_ hsteps).commit
        exact fun f => nofun
    | error e =>
        refine of_closed (c.pending_of_run hclosed hrun) ?_
        rw [c.committed_of_failed hclosed hrun]
        exact h.stored

/-- A transaction that is taken back leaves the records orderly, whatever failed
in it. -/
theorem giveUp {c : Call} {e : Error} (h : d.Orderly)
    (hrun : Runs c.run d (.error e) d') :
    { d' with view := d'.view.rollback : Desk }.Orderly := by
  refine of_closed rfl ?_
  have hkept : d'.view.committed = d.view.committed := by
    by_cases hopen : d.view.pending.isSome = true
    · exact c.committed_of_steps hopen ((c.run_of_open hopen).mp hrun)
    · have hclosed : d.view.pending = none := by simpa using hopen
      exact c.committed_of_failed hclosed hrun
  show Sight.Orderly d'.view.committed.get?
  rw [hkept]
  exact h.stored

end Desk.Orderly

/-- Whatever calls are made, the records stay orderly. -/
theorem Visited.orderly {start d : Desk} (hclosed : start.view.pending = none)
    (hempty : start.view.committed = .empty) (hvisited : Visited start d) :
    d.Orderly := by
  induction hvisited with
  | start => exact .start hclosed hempty
  | call _ hrun hcause ih => exact ih.call hcause hrun
  | begin _ _ ih => exact ih.begin
  | commit _ ih => exact ih.commit
  | rollback _ ih => exact ih.rollback
  | giveUp _ hrun ih => exact ih.giveUp hrun

/-- An operation that makes one call on the records answers `a`, unless that
call is refused, and leaves the desk as it is. -/
def Desk.Answers {α : Type} (d : Desk) (op : DeskM α) (a : α) : Prop :=
  Runs op d
    (match d.view.refusal d.view.calls with
      | some f => .error (.store f)
      | none => .ok a)
    { d with view := { d.view with calls := d.view.calls + 1 } }

namespace Registry

open Sight

variable {d d' : Desk} {account did : String}

/-- A read answers the text that stands under its slot. -/
theorem answers_of_text {s : Slot} {text : String} (what : String)
    (htext : d.view.lookup s.key = some (Utf8.encode text)) :
    d.Answers (records (.readText? what s.text)) (some text) := by
  have hfound : d.view.lookup s.key = (some text).map Utf8.encode := htext
  refine records_iff.mpr
    ⟨_, _, RecordsM.readText?_of_found what hfound, rfl, ?_⟩
  cases d.view.refusal d.view.calls <;> rfl

/-- An account that maps to a DID is answered with that DID. -/
theorem answers_didOf? (hmaps : Maps d.view.lookup account did) :
    d.Answers (didOf? account) (some did) :=
  answers_of_text (s := .didOf account) _ hmaps

/-- A DID that maps back to an account is answered with that account. -/
theorem answers_accountOf?
    (hmaps : MapsBack d.view.lookup (normalizeDid did) account) :
    d.Answers (accountOf? did) (some account) :=
  answers_of_text (s := .accountOf (normalizeDid did)) _ hmaps

/-- Where the store refuses nothing, an account can be indexed under any DID. -/
theorem exists_saveIndex (account did : String) (horderly : d.Orderly)
    (hfree : ∀ n, d.view.refusal n = none) :
    ∃ d', Runs (saveIndex account did) d (.ok ()) d' := by
  have hsure := (RecordsM.sure_saveIndex account did).records
  unfold saveIndex
  by_cases hopen : d.view.pending.isSome = true
  · have hready : d.view.Ready := ⟨hfree, horderly.visible.text⟩
    have hrun := Runs.total (records (.saveIndex account did)) d
    obtain ⟨⟨u, h⟩, -⟩ := hsure hready hrun
    rw [h] at hrun
    exact ⟨_, (transactionally_of_open hopen).mpr hrun⟩
  · have hclosed : d.view.pending = none := by simpa using hopen
    have hready : d.view.begin.Ready := ⟨hfree, horderly.begin.visible.text⟩
    have hrun :=
      Runs.total (records (.saveIndex account did))
        { d with view := d.view.begin }
    obtain ⟨⟨u, h⟩, -⟩ := hsure hready hrun
    rw [h] at hrun
    exact ⟨_, (transactionally_of_closed hclosed).mpr ⟨_, hrun, rfl⟩⟩

/-- After an account was indexed the records are the old ones with the index's
changes. -/
theorem lookup_of_saveIndex
    (hrun : Runs (saveIndex account did) d (.ok ()) d') :
    d'.view.lookup =
      Sight.after d.view.lookup
        (indexChanges d.view.lookup account (normalizeDid did)) := by
  obtain ⟨d₀, d₁, hsaved, hbefore, hafter⟩ := transactionally_ok hrun
  have hchanged :=
    (makes_records (RecordsM.makes_saveIndex account did)).ok hsaved
  rw [hafter, hchanged.lookup, hbefore]

/-- Listing the accounts answers the committed rows and changes nothing. -/
theorem runs_accounts {rows : List (String × String)}
    (hrows : d.view.committed.accounts = .ok rows) :
    Runs accounts d (.ok rows) d := by
  unfold accounts
  rw [Runs.get_bind, hrows]
  exact Runs.pure_iff.mpr ⟨rfl, rfl⟩

/-- At every desk that is visited from one without records, the two directions
of the index are inverse to each other, as they are visible and as they are
committed.  Unless the store refuses it, an account can be indexed under any
DID; it is found from both sides afterwards, and no pair is changed that has
neither this account nor this DID.  The committed pairs are listed. -/
theorem oneToOne_of_visited {start d : Desk}
    (hclosed : start.view.pending = none)
    (hempty : start.view.committed = .empty) (hvisited : Visited start d) :
    Paired d.view.lookup ∧ Paired d.view.committed.get? ∧
      (∀ account did,
        ((∀ n, d.view.refusal n = none) →
          ∃ d', Runs (saveIndex account did) d (.ok ()) d') ∧
        ∀ d', Runs (saveIndex account did) d (.ok ()) d' →
          d'.Answers (didOf? account) (some (normalizeDid did)) ∧
          (∀ v, normalizeDid v = normalizeDid did →
            d'.Answers (accountOf? v) (some account)) ∧
          ∀ other e, Maps d'.view.lookup other e ↔
            (other = account ∧ e = normalizeDid did) ∨
              (other ≠ account ∧ e ≠ normalizeDid did ∧
                Maps d.view.lookup other e)) ∧
      ∃ rows, Runs accounts d (.ok rows) d ∧ Lists rows d.view.committed := by
  have horderly := hvisited.orderly hclosed hempty
  refine ⟨horderly.visible.toPaired, horderly.stored.toPaired,
    fun account did => ?_, ?_⟩
  · refine ⟨exists_saveIndex account did horderly, fun d' hrun => ?_⟩
    have hlook := lookup_of_saveIndex hrun
    have hpaired := horderly.visible.toPaired
    have hmaps : Maps d'.view.lookup account (normalizeDid did) := by
      rw [hlook, maps_after_indexChanges hpaired]
      exact .inl ⟨rfl, rfl⟩
    have hback : MapsBack d'.view.lookup (normalizeDid did) account := by
      rw [hlook, mapsBack_after_indexChanges hpaired]
      exact .inl ⟨rfl, rfl⟩
    refine ⟨answers_didOf? hmaps, fun v hv => answers_accountOf? ?_,
      fun other e => ?_⟩
    · rw [hv]
      exact hback
    · rw [hlook]
      exact maps_after_indexChanges hpaired
  · obtain ⟨rows, hrows, hlists⟩ :=
      Records.accounts_of_paired horderly.stored.slotted
        horderly.stored.toPaired
    exact ⟨rows, runs_accounts hrows, hlists⟩

/-- A DID is indexed for one account and then for another, with which it is
found afterwards. -/
theorem oneToOne_of_reassigned :
    ∃ start d₁ d₂, Visited start d₁ ∧
      Runs (saveIndex "first" "did?query") start (.ok ()) d₁ ∧
      Runs (saveIndex "second" "did#fragment") d₁ (.ok ()) d₂ ∧
      d₁.Answers (accountOf? "did") (some "first") ∧
      d₂.Answers (accountOf? "did") (some "second") ∧
      ¬ Maps d₂.view.lookup "first" "did" := by
  let start : Desk := .waiting ⟨"private", "public"⟩ none
  have hok : (Id.run ((saveIndex "first" "did?query" >>= fun _ =>
      saveIndex "second" "did#fragment").run.run start)).1.isOk = true := by
        decide +kernel
  obtain ⟨_, d₂, hboth⟩ := Runs.exists_of_isOk hok
  obtain ⟨_, d₁, hfirst, hsecond⟩ := Runs.bind_ok.mp hboth
  have hopened : Visited start start := .start
  have hvisited : Visited start d₁ :=
    .call (c := .saveIndex "first" "did?query") hopened
      (Runs.map_iff.mpr ⟨_, hfirst, rfl⟩) fun _ => nofun
  have hquery : normalizeDid "did?query" = "did" := by decide +kernel
  have hfragment : normalizeDid "did#fragment" = "did" := by decide +kernel
  have hplain : normalizeDid "did" = "did" := by decide +kernel
  obtain ⟨-, -, hindexed, -⟩ := oneToOne_of_visited rfl rfl hopened
  obtain ⟨-, hfound, -⟩ := (hindexed _ _).2 _ hfirst
  obtain ⟨-, -, hindexed, -⟩ := oneToOne_of_visited rfl rfl hvisited
  obtain ⟨-, hfound', hmaps⟩ := (hindexed _ _).2 _ hsecond
  refine ⟨start, d₁, d₂, hvisited, hfirst, hsecond, ?_, ?_, ?_⟩
  · exact hfound _ (hplain.trans hquery.symm)
  · exact hfound' _ (hplain.trans hfragment.symm)
  · rw [hmaps, hfragment]
    rintro (⟨h, -⟩ | ⟨-, h, -⟩)
    · revert h
      decide
    · exact h rfl

end Registry

end DidVault
