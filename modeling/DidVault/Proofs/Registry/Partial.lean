import DidVault.Proofs.Registry.Reset
import DidVault.Proofs.Registry.Stops

/-!
# Calls that fail in a transaction of the caller

In a transaction of the caller the steps of a call write straight into that
transaction.  A call that fails there leaves the beginning of its plan that it
had carried out when it stopped (`Call.Stops`), and what is visible is what it
was before exactly if none of these writes made a difference
(`Call.unchanged_iff_of_failed`).

Creating the document of an account without a key of its own makes such a
difference as soon as that key is stored, which is the first thing that it does;
so every later failure, down to a key that the client forgot to hand in, leaves
the key behind (`Call.createSteps_unchanged_iff`).  A reset makes one as soon as
it has removed the password key, so it leaves none if there is no pair of keys
for a new one (`Call.reset_without_pair`).
-/

namespace DidVault

/-- What is put into a slot by the last of some changes of it. -/
def written? (s : Slot) : List Change → Option (Option Bytes)
  | [] => none
  | (t, value) :: rest =>
    match written? s rest with
    | some later => some later
    | none => if t = s then some value else none

namespace Sight

/-- After changes a key has what the last of them wrote, or the old value. -/
theorem after_key (look : Sight) (changes : List Change) (s : Slot) :
    look.after changes s.key = (written? s changes).getD (look s.key) := by
  induction changes generalizing look with
  | nil => rfl
  | cons c rest ih =>
      obtain ⟨t, value⟩ := c
      rw [after, ih, written?]
      cases written? s rest with
      | some later => rfl
      | none =>
          by_cases h : t = s
          · simp [h]
          · simp [h]

/-- A slot that is changed is written. -/
theorem exists_written {changes : List Change} {c : Change} (hc : c ∈ changes) :
    ∃ value, written? c.1 changes = some value := by
  induction changes with
  | nil => cases hc
  | cons b rest ih =>
      rw [written?]
      cases hlater : written? c.1 rest with
      | some later => exact ⟨later, rfl⟩
      | none =>
          rcases List.mem_cons.mp hc with rfl | h
          · exact ⟨c.2, if_pos rfl⟩
          · obtain ⟨value, hvalue⟩ := ih h
            rw [hlater] at hvalue
            cases hvalue

/-- Changes show, unless every changed slot held already what was put into it
last. -/
theorem after_eq_self_iff {look : Sight} {changes : List Change} :
    look.after changes = look ↔
      ∀ s value, written? s changes = some value → look s.key = value := by
  constructor
  · intro hsame s value hvalue
    have hs := after_key look changes s
    rw [hsame, hvalue] at hs
    exact hs
  · intro hidle
    funext key
    by_cases hkey : ∃ c ∈ changes, c.1.key = key
    · obtain ⟨c, hc, rfl⟩ := hkey
      obtain ⟨value, hvalue⟩ := exists_written hc
      rw [after_key, hvalue, hidle c.1 value hvalue]
      rfl
    · refine after_of_not_mem fun c hc h => ?_
      exact hkey ⟨c, hc, h⟩

end Sight

/-- Every changed slot held before what was put into it last. -/
def Idle (look : Sight) (changes : List Change) : Prop :=
  ∀ s value, written? s changes = some value → look s.key = value

namespace Call

open Registry DeskM

variable {d d' : Desk} {e : Error}

/-- An account's own key that had to be stored stays so, whatever fails
afterwards: nothing of a failed creation is seen only if there was no own key to
be had. -/
theorem createSteps_unchanged_iff {now : Timestamp} {account password : String}
    {keys : List BinderKey}
    (habsent : d.view.lookup (Slot.spaceKey account).key = none)
    (hrun : Runs (createSteps now account password keys) d (.error e) d') :
    d'.view.lookup = d.view.lookup ↔
      ∃ e₀ d₀, Runs (Custody.spaceKey account) d (.error e₀) d₀ := by
  rw [createSteps_eq] at hrun
  rcases Runs.bind_error.mp hrun with hown | ⟨own, d₁, hown, hrest⟩
  · exact ⟨fun _ => ⟨e, d', hown⟩, fun _ =>
      (Custody.failsClean_spaceKey account hown).lookup⟩
  · have hstored : d₁.view.lookup (Slot.spaceKey account).key =
        some (Utf8.encode own.privatePem) := by
      rw [(Custody.spaceKey_ok hown).1.lookup, Custody.ownChanges, habsent]
      simp [Sight.after]
    obtain ⟨wrapped, did, canonical, hmakes⟩ := exists_makes_createRest
    obtain ⟨done, rest, hsplit, hdone⟩ := hmakes.error hrest
    have hkept : d'.view.lookup (Slot.spaceKey account).key =
        some (Utf8.encode own.privatePem) := by
      rw [hdone.lookup, Sight.after_slot, hstored]
      intro c hc
      have hplan := List.mem_append_left rest hc
      rw [← hsplit] at hplan
      exact slot_ne_spaceKey_of_resetChanges account hplan
    constructor
    · intro hsame
      rw [hsame, habsent] at hkept
      cases hkept
    · rintro ⟨e₀, d₀, hfailed⟩
      cases (Runs.unique hown hfailed).1

/-- Behind a creation that took the last pair of keys, a reset in a transaction
of the caller removes the password key and fails. -/
theorem reset_without_pair :
    ∃ d d' wrapped, d.view.pending.isSome = true ∧
      Runs (reset ⟨0, 0⟩ (.account "account") "other").run d
        (.error (.key (.generation .exhausted))) d' ∧
      (reset ⟨0, 0⟩ (.account "account") "other").Stops d
        [(.passwordKey "account", none)] ∧
      d.view.lookup (Slot.passwordKey "account").key = some wrapped ∧
      d'.view.lookup (Slot.passwordKey "account").key = none := by
  obtain ⟨issued, d, hcreate⟩ : Succeeds
      (Registry.create ⟨0, 0⟩ "account" "secret" [.client ""]) .stocked :=
    succeeds_create_stocked BinderKey.kind_client
  have hcall : Runs (create ⟨0, 0⟩ "account" "secret" [.client ""]).run .stocked
      (.ok (.issued issued)) d := Runs.map_iff.mpr ⟨_, hcreate, rfl⟩
  have hkept := stored_of_run _ rfl hcall
  have hreached : Reached .stocked _ d :=
    .call (c := create ⟨0, 0⟩ "account" "secret" [.client ""]) .start
      trivial hcall
  obtain ⟨-, hstanding⟩ := hreached.standing rfl rfl
  have hfree : ∀ n, d.view.refusal n = none :=
    congrFun (refusal_of_run _ rfl hcall)
  have hpair : d.freshPair = .error .exhausted := by
    obtain ⟨d₁, hsteps, rfl⟩ := (transactionally_of_closed rfl).mp hcreate
    obtain ⟨hpool, -, hsource⟩ := supplies_of_createSteps ready_stocked hsteps
    show d₁.freshPair = _
    rw [Desk.freshPair, hpool, hsource rfl rfl]
    rfl
  -- the reset is part of a transaction that was opened then
  let b : Desk := { d with view := d.view.begin }
  have hready : b.view.Ready := ⟨hfree, hstanding.text⟩
  obtain ⟨i, calls, htarget⟩ : ∃ i calls,
      Runs (resetTarget (.account "account")) b (.ok ("account", i))
        (b.later calls) :=
    runs_resetTarget hready hstanding hkept.didOf rfl
  obtain ⟨d₁, d', hdelete, hkey, hreset⟩ :=
    removed_of_resetSteps ⟨0, 0⟩ "other" hready hpair htarget
  refine ⟨b, d', issued.wrapped, rfl, ?_,
    .issue htarget (.removed hdelete ⟨_, _, hkey⟩), hkept.passwordKey, ?_⟩
  · exact (run_of_open _ rfl).mpr (Runs.map_error.mpr hreset)
  · rw [(Custody.failsClean_passwordKey _ _ hkey).lookup]
    exact Custody.lookup_of_delete hdelete

/-- What a failed call wrote in a transaction that is open at desk `d` makes no
difference. -/
def Harmless (d : Desk) (done : List Change) : Call → Prop
  | create _ account _ _ =>
      (∃ e d₁, Runs (Custody.spaceKey account) d (.error e) d₁) ∨
        d.view.lookup (Slot.spaceKey account).key ≠ none ∧
        Idle d.view.lookup done
  | reset .. => Idle d.view.lookup done
  | updatePassword .. => True
  | saveIndex .. => Idle d.view.lookup done

/-- A call that fails in a transaction of the caller has carried out the
beginning of its plan that stands before the step where it stops, and leaves
what is visible as it was exactly if that made no difference. -/
theorem unchanged_iff_of_failed (c : Call)
    (hopen : d.view.pending.isSome = true) (hrun : Runs c.run d (.error e) d') :
    ∃ plan done, c.Plan d.view.lookup plan ∧ done <+: plan ∧ c.Stops d done ∧
      d'.view.lookup = Sight.after d.view.lookup done ∧
      (d'.view.lookup = d.view.lookup ↔ c.Harmless d done) := by
  have hsteps := (run_of_open c hopen).mp hrun
  obtain ⟨plan, done, hplan, hprefix, hstops, hdone⟩ := exists_stops c hsteps
  refine ⟨plan, done, hplan, hprefix, hstops, hdone.lookup, ?_⟩
  have hidle : d'.view.lookup = d.view.lookup ↔ Idle d.view.lookup done := by
    rw [hdone.lookup]
    exact Sight.after_eq_self_iff
  cases c with
  | create now account password keys =>
      obtain ⟨r₀, h, hr⟩ := Runs.map_iff.mp hsteps
      cases r₀ with
      | ok doc => cases hr
      | error e₀ =>
          simp only [Harmless]
          by_cases habsent : d.view.lookup (Slot.spaceKey account).key = none
          · rw [createSteps_unchanged_iff habsent h]
            simp [habsent]
          · rw [hidle]
            refine ⟨fun hdone => .inr ⟨habsent, hdone⟩, ?_⟩
            rintro (⟨e₁, d₁, hown⟩ | ⟨-, hdone⟩)
            · rw [createSteps_eq, Runs.bind_of_error hown] at h
              obtain ⟨-, rfl⟩ := h
              exact hidle.mp (Custody.failsClean_spaceKey account hown).lookup
            · exact hdone
  | reset now lookup password => exact hidle
  | updatePassword account old new =>
      obtain ⟨r₀, h, hr⟩ := Runs.map_iff.mp hsteps
      cases r₀ with
      | ok wrapped => cases hr
      | error e₀ =>
          exact ⟨fun _ => trivial, fun _ =>
            (Custody.failsClean_rotate account old new h).lookup⟩
  | saveIndex account did => exact hidle

/-- A creation that fails in a transaction of the caller, for want of a key from
the client, shows the account's own key there.  A reset that fails there, for
want of a pair of keys, shows that the password key is gone. -/
theorem changed_of_failed :
    (∃ d', Runs (create ⟨0, 0⟩ "account" "password" []).run
        (Desk.waiting ⟨"private", "public"⟩ (some .empty))
        (.error (.notFound "binder verification method")) d' ∧
      d'.view.lookup ≠
        (Desk.waiting ⟨"private", "public"⟩ (some .empty)).view.lookup ∧
      ∃ done, ¬ (create ⟨0, 0⟩ "account" "password" []).Harmless
        (Desk.waiting ⟨"private", "public"⟩ (some .empty)) done) ∧
    ∃ d d' wrapped, Runs (reset ⟨0, 0⟩ (.account "account") "other").run d
        (.error (.key (.generation .exhausted))) d' ∧
      (reset ⟨0, 0⟩ (.account "account") "other").Stops d
        [(.passwordKey "account", none)] ∧
      d.view.lookup (Slot.passwordKey "account").key = some wrapped ∧
      d'.view.lookup (Slot.passwordKey "account").key = none ∧
      ∃ done, ¬ (reset ⟨0, 0⟩ (.account "account") "other").Harmless
        d done := by
  constructor
  · obtain ⟨d', hsteps, hstored⟩ :=
      create_without_keys ⟨0, 0⟩ "account" "password"
        ⟨"private", "public"⟩
        (d := Desk.waiting ⟨"private", "public"⟩ (some .empty))
          (fun _ => rfl) rfl rfl
    have hrun :=
      (run_of_open (d := Desk.waiting ⟨"private", "public"⟩ (some .empty))
        _ rfl).mpr hsteps
    have hchanged : d'.view.lookup ≠
        (Desk.waiting ⟨"private", "public"⟩ (some .empty)).view.lookup := by
      intro hsame
      rw [hsame] at hstored
      cases hstored
    obtain ⟨-, done, -, -, -, -, hiff⟩ := unchanged_iff_of_failed _ rfl hrun
    exact ⟨d', hrun, hchanged, done, fun hharmless =>
      hchanged (hiff.mpr hharmless)⟩
  · obtain ⟨d, d', wrapped, hopen, hrun, hstops, hbefore, hafter⟩ :=
      reset_without_pair
    obtain ⟨-, done, -, -, -, -, hiff⟩ := unchanged_iff_of_failed _ hopen hrun
    refine ⟨d, d', wrapped, hrun, hstops, hbefore, hafter, done,
      fun hharmless => ?_⟩
    have hsame := hiff.mpr hharmless
    rw [hsame, hbefore] at hafter
    cases hafter

end Call

end DidVault
