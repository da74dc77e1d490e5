import DidVault.Proofs.Registry.Keeping

/-!
# Histories of the registry

From a desk without records, any calls are made outside transactions that
create documents, replace password keys and wrap them anew; some succeed and
some fail (`Reached`).  What accounts hold follows the history (`Tracks`), one
call after the other (`Desk.Holds.step`), so that the desk always holds what
was issued last to the accounts whose documents were created
(`Reached.holds`).
-/

namespace DidVault

open Registry

/-- The calls by which accounts get their documents and keys; indexing alone is
none of them. -/
def Call.Manages : Call → Prop
  | saveIndex _ _ => False
  | _ => True

/-- The account that a call is about, if there is one. -/
def Call.account? (look : Sight) : Call → Option String
  | create _ account _ _ => some account
  | reset _ lookup _ => Registry.account? look lookup
  | updatePassword account _ _ => some account
  | saveIndex account _ => some account

/-- A call that was made, the account that it was about, and how it ended. -/
structure Event where
  call : Call
  account? : Option String
  outcome : Except Error Answer

/-- The document that was issued to an account, if the call did so. -/
def Event.issuedTo? (e : Event) (account : String) : Option IssuedDocument :=
  match e.outcome with
  | .ok (.issued issued) =>
      if e.account? = some account then some issued else none
  | _ => none

/-- The call created the document of an account. -/
def Event.Creates (e : Event) (account : String) : Prop :=
  (∃ now password keys, e.call = .create now account password keys) ∧
    ∃ answer, e.outcome = .ok answer

/-- The desks that are reached by calls outside transactions, with these calls;
the last one comes first. -/
inductive Reached (start : Desk) : List Event → Desk → Prop where
  | start : Reached start [] start
  | call {events : List Event} {d d' : Desk} {c : Call}
      {r : Except Error Answer} (hreached : Reached start events d)
      (hmanages : c.Manages) (hrun : Runs c.run d r d') :
      Reached start (⟨c, c.account? d.view.lookup, r⟩ :: events) d'

/-- The document of an account was created. -/
def Created (events : List Event) (account : String) : Prop :=
  ∃ e ∈ events, e.Creates account

/-- What was issued to an account last. -/
def lastIssued? (events : List Event) (account : String) :
    Option IssuedDocument :=
  events.findSome? (·.issuedTo? account)

/-- What is held is what was issued last to the accounts whose documents were
created. -/
structure Tracks (held : Holdings) (events : List Event) : Prop where
  issued : ∀ account,
    (held account).map Holding.issued = lastIssued? events account
  created : ∀ account, (held account).isSome = true ↔ Created events account

namespace Tracks

variable {held held' : Holdings} {events : List Event} {e : Event} {h : Holding}
  {account : String}

/-- Nobody holds anything before the first event. -/
theorem start : Tracks (fun _ => none) [] where
  issued _ := rfl
  created account := by
    constructor
    · intro h
      cases h
    · rintro ⟨e, he, -⟩
      cases he

/-- One more call adds what it issued and what it created. -/
theorem cons (htracks : Tracks held events)
    (hissued : ∀ a, (held' a).map Holding.issued =
      (e.issuedTo? a).or ((held a).map Holding.issued))
    (hcreated : ∀ a, (held' a).isSome = true ↔
      e.Creates a ∨ (held a).isSome = true) :
    Tracks held' (e :: events) where
  issued a := by
    rw [hissued, htracks.issued, lastIssued?, lastIssued?, List.findSome?_cons]
    cases e.issuedTo? a with
    | none => rfl
    | some issued => rfl
  created a := by
    rw [hcreated, htracks.created, Created, Created]
    simp only [List.mem_cons, exists_eq_or_imp]

/-- A call that issues nothing leaves what is held, up to the wrapping of a
password key. -/
theorem cons_of_silent (htracks : Tracks held events)
    (hsilent : ∀ a, e.issuedTo? a = none) (hcreates : ∀ a, ¬ e.Creates a)
    (hsame : ∀ a, (held' a).map Holding.issued = (held a).map Holding.issued) :
    Tracks held' (e :: events) := by
  refine htracks.cons ?_ ?_
  · intro a
    rw [hsilent a, Option.none_or]
    exact hsame a
  · intro a
    have hsome := congrArg Option.isSome (hsame a)
    rw [Option.isSome_map, Option.isSome_map] at hsome
    rw [hsome]
    exact (or_iff_right (hcreates a)).symm

/-- A call that issues a document to an account gives it a holding. -/
theorem cons_of_issued (htracks : Tracks held events)
    (hissued : ∀ a, e.issuedTo? a = if a = account then some h.issued else none)
    (hcreates : ∀ a, e.Creates a → a = account)
    (haccount : e.Creates account ∨ (held account).isSome = true) :
    Tracks (Function.update held account (some h)) (e :: events) := by
  refine htracks.cons ?_ ?_
  · intro a
    rw [hissued a]
    by_cases hsame : a = account
    · rw [hsame, Function.update_self, if_pos rfl]
      rfl
    · rw [Function.update_of_ne hsame, if_neg hsame]
      rfl
  · intro a
    by_cases hsame : a = account
    · rw [hsame, Function.update_self]
      exact iff_of_true rfl haccount
    · rw [Function.update_of_ne hsame]
      exact (or_iff_right fun hother => hsame (hcreates a hother)).symm

end Tracks

/-- One call keeps what is held in step with the history. -/
theorem Desk.Holds.step {d d' : Desk} {held : Holdings} {events : List Event}
    {c : Call} {r : Except Error Answer} (hholds : d.Holds held)
    (htracks : Tracks held events) (hmanages : c.Manages)
    (hrun : Runs c.run d r d') :
    ∃ held', d'.Holds held' ∧
      Tracks held' (⟨c, c.account? d.view.lookup, r⟩ :: events) := by
  cases r with
  | error e =>
      refine ⟨held, hholds.of_failed c hrun, ?_⟩
      refine htracks.cons_of_silent (fun _ => rfl) ?_ (fun _ => rfl)
      rintro a ⟨-, answer, h⟩
      cases h
  | ok answer =>
      cases c with
      | create now account password keys =>
          obtain ⟨h, rfl, hnext⟩ := hholds.of_create hrun
          refine ⟨_, hnext, htracks.cons_of_issued ?_ ?_ ?_⟩
          · intro a
            show (if some account = some a then some h.issued else none) = _
            by_cases hsame : a = account
            · rw [if_pos hsame, if_pos (congrArg some hsame.symm)]
            · rw [if_neg hsame, if_neg fun h => hsame (Option.some.inj h).symm]
          · rintro a ⟨⟨now', password', keys', hcall⟩, -⟩
            cases hcall
            rfl
          · exact .inl ⟨⟨now, password, keys, rfl⟩, _, rfl⟩
      | reset now lookup password =>
          obtain ⟨account, h, hfound, hheld, rfl, hnext⟩ := hholds.of_reset hrun
          rw [← View.lookup_of_closed hholds.closed] at hfound
          refine ⟨_, hnext, htracks.cons_of_issued ?_ ?_ (.inr hheld)⟩
          · intro a
            show (if Registry.account? d.view.lookup lookup =
                some a then some h.issued else none) = _
            rw [hfound]
            by_cases hsame : a = account
            · rw [if_pos hsame, if_pos (congrArg some hsame.symm)]
            · rw [if_neg hsame, if_neg fun h => hsame (Option.some.inj h).symm]
          · rintro a ⟨⟨now', password', keys', hcall⟩, -⟩
            cases hcall
      | updatePassword account old new =>
          obtain ⟨h, wrapped, hheld, rfl, hnext⟩ :=
            hholds.of_updatePassword hrun
          refine ⟨_, hnext, htracks.cons_of_silent (fun _ => rfl) ?_ ?_⟩
          · rintro a ⟨⟨now', password', keys', hcall⟩, -⟩
            cases hcall
          · intro a
            by_cases hsame : a = account
            · rw [hsame, Function.update_self, hheld]
              rfl
            · rw [Function.update_of_ne hsame]
      | saveIndex account did => exact hmanages.elim

/-- After any calls the desk holds what the history says. -/
theorem Reached.holds {start d : Desk} {events : List Event}
    (hclosed : start.view.pending = none)
    (hempty : start.view.committed = .empty) (hdistinct : start.Distinct)
    (hreadable : start.Readable) (hreached : Reached start events d) :
    ∃ held, d.Holds held ∧ Tracks held events := by
  induction hreached with
  | start => exact ⟨_, .empty hclosed hempty hdistinct hreadable, .start⟩
  | call _ hmanages hrun ih =>
      obtain ⟨held, hholds, htracks⟩ := ih
      exact hholds.step htracks hmanages hrun

end DidVault
