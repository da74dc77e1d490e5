import DidVault.Proofs.Desk

/-!
# What keeping keys changes

The account's own key is written once, when it is first asked for
(`ownChanges`).  Its password key is written when it is made or wrapped anew,
and removed only to be made again.
-/

namespace DidVault.Custody

open DeskM

variable {d d' : Desk} {account : String} {e : Error}

/-- What asking for the account's own key changes, if the answer is `pair`. -/
def ownChanges (look : Sight) (account : String) (pair : KeyPair) :
    List Change :=
  match look (Slot.spaceKey account).key with
  | some _ => []
  | none => [(.spaceKey account, some (Utf8.encode pair.privatePem))]

/-- What replacing the account's password key changes: the old one goes
first. -/
def passwordChanges (account : String) (wrapped : Bytes) : List Change :=
  [(.passwordKey account, none)] ++ [(.passwordKey account, some wrapped)]

section Steps

variable {P : ∀ {α : Type}, DeskM α → Prop}

/-! What holds of all steps of asking for a key holds of asking for it. -/

/-- What holds of the steps of wrapping holds of wrapping. -/
theorem wrap_of_closed (hclosed : Closed P)
    (hdraw : ∀ count shortage, P (draw count shortage)) (plaintext : Bytes)
    (password : String) :
    P (wrap plaintext password) :=
  hclosed.bind (hdraw ..) fun _ => hclosed.pure _

/-- What holds of the steps of finding the account's own key holds of finding
it. -/
theorem spaceKey_of_closed (hclosed : Closed P)
    (hread : P (records (.spaceKey? account)))
    (hput : ∀ pem, P (records (.putSpaceKey account pem)))
    (htake : P (takeOrMake .space)) : P (spaceKey account) := by
  refine hclosed.bind hread fun found => ?_
  cases found with
  | some pem =>
      cases hpair : KeyPair.ofPrivatePem pem with
      | some pair => simp only [hpair]; exact hclosed.pure pair
      | none => simp only [hpair]; exact hclosed.throw _
  | none =>
      refine hclosed.bind htake fun pair => ?_
      exact hclosed.bind (hput _) fun _ => hclosed.pure pair

/-- What holds of the steps of finding the password key holds of finding it. -/
theorem passwordKey_of_closed (hclosed : Closed P)
    (hread : P (records (.passwordKey? account)))
    (hput : ∀ wrapped, P (records (.putPasswordKey account wrapped)))
    (htake : P (takeOrMake .password))
    (hdraw : ∀ count shortage, P (draw count shortage)) (password : String) :
    P (passwordKey account password) := by
  refine hclosed.bind hread fun found => ?_
  cases found with
  | some wrapped =>
      exact hclosed.bind (ofKeys_of_closed hclosed _) fun _ => hclosed.pure _
  | none =>
      refine hclosed.bind htake fun pair => ?_
      refine hclosed.bind (wrap_of_closed hclosed hdraw ..) fun wrapped => ?_
      exact hclosed.bind (hput _) fun _ => hclosed.pure _

end Steps

/-- Reading the account's own key makes no change. -/
theorem makes_spaceKey? : Makes Desk.view (records (.spaceKey? account)) d [] :=
  makes_records (RecordsM.makes_readText? (s := .spaceKey account) _)

/-- Storing the account's own key makes one change. -/
theorem makes_putSpaceKey (pem : String) :
    Makes Desk.view (records (.putSpaceKey account pem)) d
      [(.spaceKey account, some (Utf8.encode pem))] :=
  makes_records (RecordsM.makes_put (s := .spaceKey account) _)

/-- Reading the wrapped key makes no change. -/
theorem makes_passwordKey? :
    Makes Desk.view (records (.passwordKey? account)) d [] :=
  makes_records (RecordsM.makes_read? (s := .passwordKey account))

/-- Storing the wrapped key makes one change. -/
theorem makes_putPasswordKey (wrapped : Bytes) :
    Makes Desk.view (records (.putPasswordKey account wrapped)) d
      [(.passwordKey account, some wrapped)] :=
  makes_records (RecordsM.makes_put (s := .passwordKey account) _)

/-- Deleting the wrapped key makes one change. -/
theorem makes_delete :
    Makes Desk.view (delete account) d [(.passwordKey account, none)] :=
  makes_records (RecordsM.makes_delete (s := .passwordKey account))

/-- A password key that is not removed stays as it is. -/
theorem atOnce_delete :
    MakesAtOnce Desk.view (delete account) d [(.passwordKey account, none)] :=
  atOnce_records (RecordsM.atOnce_deleteAny (some (.passwordKey account)))

/-- The account's own key is the stored one, or else one that is taken or made
and then stored. -/
theorem spaceKey_ok {pair : KeyPair}
    (hrun : Runs (spaceKey account) d (.ok pair) d') :
    d.view.Changed (ownChanges d.view.lookup account pair) d'.view ∧
      ((∃ pem, d.view.lookup (Slot.spaceKey account).key =
        some (Utf8.encode pem) ∧
          KeyPair.ofPrivatePem pem = some pair ∧
          d' = { d with view := d'.view }) ∨
        (d.view.lookup (Slot.spaceKey account).key = none ∧
          ∃ v d₂, Runs (takeOrMake .space) { d with view := v } (.ok pair) d₂ ∧
            d' = { d₂ with view := d'.view })) := by
  obtain ⟨found, d₁, hfound, hrest⟩ := Runs.bind_ok.mp hrun
  have hchanged := makes_spaceKey?.ok hfound
  obtain ⟨v₁, hread, rfl⟩ := records_ok hfound
  have hlook := RecordsM.readText?_ok (s := .spaceKey account) hread
  cases found with
  | some pem =>
      simp only at hrest
      split at hrest
      · next pair' hpair =>
          obtain ⟨h, rfl⟩ := Runs.pure_iff.mp hrest
          cases h
          refine ⟨?_, .inl ⟨pem, hlook, hpair, rfl⟩⟩
          rw [ownChanges, hlook]
          exact hchanged
      · obtain ⟨h, -⟩ := Runs.throw_iff.mp hrest
        cases h
  | none =>
      obtain ⟨pair', d₂, hmade, hstore⟩ := Runs.bind_ok.mp hrest
      obtain ⟨u, d₃, hput, hdone⟩ := Runs.bind_ok.mp hstore
      obtain ⟨h, rfl⟩ := Runs.pure_iff.mp hdone
      cases h
      have hkept := ((leavesView_takeOrMake .space).makes _).ok hmade
      have hwritten := (makes_putSpaceKey _).ok hput
      obtain ⟨v₃, -, rfl⟩ := records_ok hput
      refine ⟨?_, .inr ⟨hlook, v₁, d₂, hmade, rfl⟩⟩
      rw [ownChanges, hlook]
      exact (hchanged.trans hkept).trans hwritten

/-- The record of an account's own key holds the private key of a pair: either
it was stored when the pair was taken or made, or the pair was read from it. -/
def Owns (look : Sight) (account : String) (pair : KeyPair) : Prop :=
  ∃ pem, look (Slot.spaceKey account).key = some (Utf8.encode pem) ∧
    (pem = pair.privatePem ∨ KeyPair.ofPrivatePem pem = some pair)

/-- An account owns the key that was found or made for it. -/
theorem owns_of_spaceKey {pair : KeyPair}
    (hrun : Runs (spaceKey account) d (.ok pair) d') :
    Owns d'.view.lookup account pair := by
  obtain ⟨hchanged, hcases⟩ := spaceKey_ok hrun
  rw [hchanged.lookup]
  rcases hcases with ⟨pem, hlook, hpair, -⟩ | ⟨habsent, -⟩
  · refine ⟨pem, ?_, .inr hpair⟩
    rw [ownChanges, hlook]
    exact hlook
  · refine ⟨pair.privatePem, ?_, .inl rfl⟩
    rw [ownChanges, habsent]
    exact if_pos rfl

/-- A pair that waits becomes the own key of an account that has none. -/
theorem spaceKey_of_pool {own : KeyPair} (hfree : ∀ n, d.view.refusal n = none)
    (habsent : d.view.lookup (Slot.spaceKey account).key = none)
    (hpool : d.pool.space = some own) :
    ∃ d', Runs (spaceKey account) d (.ok own) d' := by
  let v₁ : View := { d.view with calls := d.view.calls + 1 }
  let d₁ : Desk := { d with view := v₁, pool := d.pool.set .space none }
  have hread :
      Runs (records (.spaceKey? account)) d (.ok none)
        { d with view := v₁ } := by
    refine records_iff.mpr ⟨.ok none, v₁, ?_, rfl, rfl⟩
    have hfound :=
      RecordsM.read?_of_unrefused (s := .spaceKey account) (hfree d.view.calls)
    rw [habsent] at hfound
    exact (Runs.bind_of_ok hfound).mpr (Runs.pure_iff.mpr ⟨rfl, rfl⟩)
  have htaken : Runs (take .space) { d with view := v₁ } (.ok (some own)) d₁ :=
    take_iff.mpr ⟨congrArg Except.ok hpool.symm, rfl⟩
  have htake : Runs (takeOrMake .space) { d with view := v₁ } (.ok own) d₁ :=
    (Runs.bind_of_ok htaken).mpr (Runs.pure_iff.mpr ⟨rfl, rfl⟩)
  have hstore : ∃ d₂,
      Runs (records (.putSpaceKey account own.privatePem)) d₁ (.ok ()) d₂ := by
    have hput := RecordsM.put_of_unrefused (v := v₁) (.spaceKey account)
      (Utf8.encode own.privatePem) (hfree v₁.calls)
    exact ⟨_, records_iff.mpr ⟨.ok (), _, hput, rfl, rfl⟩⟩
  obtain ⟨d₂, hstore⟩ := hstore
  refine ⟨d₂, (Runs.bind_of_ok hread).mpr ((Runs.bind_of_ok htake).mpr ?_)⟩
  exact (Runs.bind_of_ok hstore).mpr (Runs.pure_iff.mpr ⟨rfl, rfl⟩)

/-- An account whose own key cannot be had has no record changed. -/
theorem failsClean_spaceKey (account : String) :
    FailsClean (spaceKey account) := by
  refine .bind (fun _ => makes_spaceKey?) fun found => ?_
  cases found with
  | some pem =>
      refine .of_makes fun d => ?_
      cases hpair : KeyPair.ofPrivatePem pem with
      | some pair => simp only [hpair]; exact .pure pair
      | none => simp only [hpair]; exact .throw _ []
  | none =>
      exact .bind (leavesView_takeOrMake .space).makes fun pair =>
        .then_pure (.put (.spaceKey account) _)

/-- Wrapping leaves the records alone. -/
theorem leavesView_wrap (plaintext : Bytes) (password : String) :
    LeavesView (wrap plaintext password) :=
  closed_leavesView.bind (leavesView_draw _ _) fun _ => closed_leavesView.pure _

/-- A wrapping begins with a block that is drawn, if there are enough random
bytes for it. -/
theorem wrap_cases {plaintext : Bytes} {password : String}
    {r : Except Error Bytes} (hrun : Runs (wrap plaintext password) d r d') :
    (d.entropy.length < Cbc.blockLength ∧ r = .error (.key .noEntropy)) ∨
      (Cbc.blockLength ≤ d.entropy.length ∧
        r = .ok (Wrapping.wrapWith (d.entropy.take Cbc.blockLength) plaintext
          password) ∧
        d' = { d with entropy := d.entropy.drop Cbc.blockLength }) := by
  unfold wrap at hrun
  by_cases hshort : d.entropy.length < Cbc.blockLength
  · have hdraw :
        Runs (draw Cbc.blockLength (.key .noEntropy)) d
          (.error (.key .noEntropy)) d :=
      draw_iff.mpr (by rw [if_pos hshort]; exact ⟨rfl, rfl⟩)
    exact .inl ⟨hshort, ((Runs.bind_of_error hdraw).mp hrun).1⟩
  · have hdraw : Runs (draw Cbc.blockLength (.key .noEntropy)) d
        (.ok (d.entropy.take Cbc.blockLength))
        { d with entropy := d.entropy.drop Cbc.blockLength } :=
      draw_iff.mpr (by rw [if_neg hshort]; exact ⟨rfl, rfl⟩)
    exact .inr ⟨Nat.le_of_not_lt hshort,
      Runs.pure_iff.mp ((Runs.bind_of_ok hdraw).mp hrun)⟩

/-- A password key that is not there is made, wrapped and stored. -/
theorem passwordKey_ok {password : String} {key : PasswordKey}
    (habsent : d.view.lookup (Slot.passwordKey account).key = none)
    (hrun : Runs (passwordKey account password) d (.ok key) d') :
    d.view.Changed [(.passwordKey account, some key.wrapped)] d'.view := by
  obtain ⟨found, d₁, hfound, hrest⟩ := Runs.bind_ok.mp hrun
  have hchanged := makes_passwordKey?.ok hfound
  obtain ⟨v₁, hread, rfl⟩ := records_ok hfound
  have hlook := RecordsM.read?_ok (s := .passwordKey account) hread
  rw [habsent] at hlook
  cases hlook
  obtain ⟨pair, d₂, hmade, hrest⟩ := Runs.bind_ok.mp hrest
  obtain ⟨wrapped, d₃, hwrap, hrest⟩ := Runs.bind_ok.mp hrest
  obtain ⟨u, d₄, hput, hdone⟩ := Runs.bind_ok.mp hrest
  obtain ⟨h, rfl⟩ := Runs.pure_iff.mp hdone
  cases h
  have hmade' := ((leavesView_takeOrMake .password).makes _).ok hmade
  have hwrap' := ((leavesView_wrap _ _).makes _).ok hwrap
  exact ((hchanged.trans hmade').trans hwrap').trans
    ((makes_putPasswordKey _).ok hput)

/-- Where a password key has been removed, there is none. -/
theorem lookup_of_delete {u : Unit}
    (hrun : Runs (delete account) d (.ok u) d') :
    d'.view.lookup (Slot.passwordKey account).key = none := by
  rw [(makes_delete.ok hrun).lookup]
  simp [Sight.after]

/-- A password key that is removed is made anew. -/
theorem changed_of_replace {password : String} {key : PasswordKey} {u : Unit}
    {d₁ : Desk} (hdelete : Runs (delete account) d (.ok u) d₁)
    (hkey : Runs (passwordKey account password) d₁ (.ok key) d') :
    d.view.Changed (passwordChanges account key.wrapped) d'.view :=
  (makes_delete.ok hdelete).trans
    (passwordKey_ok (lookup_of_delete hdelete) hkey)

/-- A password key that cannot be made leaves the records as they are. -/
theorem failsClean_passwordKey (account password : String) :
    FailsClean (passwordKey account password) := by
  refine .bind (fun _ => makes_passwordKey?) fun found => ?_
  cases found with
  | some wrapped => exact .then_pure (.of_makes (leavesView_ofKeys _).makes)
  | none =>
      refine .bind (leavesView_takeOrMake .password).makes fun pair => ?_
      exact .bind (leavesView_wrap _ _).makes fun wrapped =>
        .then_pure (.put (.passwordKey account) _)

/-- A password key that is wrapped anew is stored in place of the old one. -/
theorem rotate_ok {old new : String} {rewrapped : Bytes}
    (hrun : Runs (rotate account old new) d (.ok rewrapped) d') :
    d.view.Changed [(.passwordKey account, some rewrapped)] d'.view := by
  obtain ⟨found, d₁, hread, hrest⟩ := Runs.bind_ok.mp hrun
  have hchanged := makes_passwordKey?.ok hread
  cases found with
  | none =>
      obtain ⟨h, -⟩ := Runs.throw_iff.mp hrest
      cases h
  | some wrapped =>
      obtain ⟨pair, d₂, hopen, hrest⟩ := Runs.bind_ok.mp hrest
      obtain ⟨again, d₃, hwrap, hrest⟩ := Runs.bind_ok.mp hrest
      obtain ⟨u, d₄, hput, hdone⟩ := Runs.bind_ok.mp hrest
      obtain ⟨h, rfl⟩ := Runs.pure_iff.mp hdone
      cases h
      have hopen' := ((leavesView_ofKeys _).makes _).ok hopen
      have hwrap' := ((leavesView_wrap _ _).makes _).ok hwrap
      exact ((hchanged.trans hopen').trans hwrap').trans
        ((makes_putPasswordKey _).ok hput)

/-- Only a password key that is there and is opened is wrapped anew, and from a
block that is drawn. -/
theorem opened_of_rotate {old new : String} {rewrapped : Bytes}
    (hrun : Runs (rotate account old new) d (.ok rewrapped) d') :
    ∃ wrapped pair iv,
      d.view.lookup (Slot.passwordKey account).key = some wrapped ∧
      Wrapping.unwrapKey wrapped old = .ok pair ∧ iv.length = Cbc.blockLength ∧
      rewrapped = Wrapping.wrapWith iv (Utf8.encode pair.privatePem) new := by
  obtain ⟨found, d₁, hfound, hrest⟩ := Runs.bind_ok.mp hrun
  obtain ⟨v₁, hread, -⟩ := records_ok hfound
  have hlook := RecordsM.read?_ok (s := .passwordKey account) hread
  cases found with
  | none =>
      obtain ⟨h, -⟩ := Runs.throw_iff.mp hrest
      cases h
  | some wrapped =>
      obtain ⟨pair, d₂, hopen, hrest⟩ := Runs.bind_ok.mp hrest
      obtain ⟨again, d₃, hwrap, hrest⟩ := Runs.bind_ok.mp hrest
      obtain ⟨u, d₄, -, hdone⟩ := Runs.bind_ok.mp hrest
      obtain ⟨h, -⟩ := Runs.pure_iff.mp hdone
      cases h
      rcases wrap_cases hwrap with ⟨-, hshort⟩ | ⟨henough, hagain, -⟩
      · cases hshort
      · refine ⟨wrapped, pair, _, hlook.symm, (ofKeys_ok.mp hopen).1, ?_,
          Except.ok.inj hagain⟩
        rw [List.length_take]
        exact Nat.min_eq_left henough

/-- A password key that cannot be wrapped anew stays as it is. -/
theorem failsClean_rotate (account old new : String) :
    FailsClean (rotate account old new) := by
  refine .bind (fun _ => makes_passwordKey?) fun found => ?_
  cases found with
  | none => exact .of_makes fun _ => .throw _ []
  | some wrapped =>
      refine .bind (leavesView_ofKeys _).makes fun pair => ?_
      exact .bind (leavesView_wrap _ _).makes fun rewrapped =>
        .then_pure (.put (.passwordKey account) _)

end DidVault.Custody
