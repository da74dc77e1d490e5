import DidVault.Proofs.Registry.Footprint
import DidVault.Proofs.Supply
import Mathlib.Logic.Function.Basic

/-!
# What accounts hold

The records are described by what each account holds: its own key, its wrapped
password key and what was issued to it last.  A holding stands for five records
(`Holding.records`), and the records are those of some holdings if they are
these and no others (`Represents`).  A call that gives an account a new holding
writes its records, and whatever else it does to the records comes to nothing
(`after_createChanges`, `after_resetChanges`).
-/

namespace DidVault

/-- What an account holds. -/
structure Holding where
  own : KeyPair
  wrapped : Bytes
  issued : IssuedDocument
  deriving Repr, DecidableEq

/-- What each account holds, if it holds anything. -/
abbrev Holdings := String → Option Holding

/-- The places of the records of an account and its DID. -/
def Slot.ofAccount (account did : String) : List Slot :=
  [.spaceKey account, .document did, .didOf account, .accountOf did,
    .passwordKey account]

/-- Only one account has a place, if only one has the DID. -/
theorem Slot.account_or_did {account other did previous : String} {s : Slot}
    (hs : s ∈ ofAccount account did) (hother : s ∈ ofAccount other previous) :
    other = account ∨ previous = did := by
  simp only [ofAccount, List.mem_cons, List.not_mem_nil, or_false] at hs hother
  rcases hs with rfl | rfl | rfl | rfl | rfl <;> simp_all

namespace Sight

variable {look : Sight} {changes : List Change}

/-- Each of several changes counts if they are of different slots. -/
theorem after_of_mem {c : Change} (hdifferent : (changes.map Prod.fst).Nodup)
    (hc : c ∈ changes) :
    look.after changes c.1.key = c.2 := by
  induction changes generalizing look with
  | nil => cases hc
  | cons first rest ih =>
      rw [List.map_cons, List.nodup_cons] at hdifferent
      rcases List.mem_cons.mp hc with rfl | hc
      · rw [after, after_of_not_mem, if_pos rfl]
        intro d hd h
        refine hdifferent.1 ?_
        rw [← Slot.key_inj.mp h]
        exact List.mem_map_of_mem hd
      · exact ih hdifferent.2 hc

/-- Writing what is there already changes nothing. -/
theorem after_of_holds (hholds : ∀ c ∈ changes, look c.1.key = c.2) :
    look.after changes = look := by
  induction changes with
  | nil => rfl
  | cons c rest ih =>
      have hsame :
          (fun key => if c.1.key = key then c.2 else look key) = look := by
        funext key
        by_cases h : c.1.key = key
        · rw [if_pos h, ← h]
          exact (hholds c List.mem_cons_self).symm
        · exact if_neg h
      rw [after, hsame]
      exact ih fun d hd => hholds d (List.mem_cons_of_mem _ hd)

end Sight

namespace Holding

/-- The DID of an account, as the index has it. -/
def did (h : Holding) : String := normalizeDid h.issued.did

/-- The records that are not written when the password alone is replaced. -/
def lasting (h : Holding) (account : String) : List Change :=
  [(.spaceKey account, some (Utf8.encode h.own.privatePem)),
   (.document h.did, some h.issued.document),
   (.didOf account, some (Utf8.encode h.did)),
   (.accountOf h.did, some (Utf8.encode account))]

/-- The five records of an account. -/
def records (h : Holding) (account : String) : List Change :=
  h.lasting account ++ [(.passwordKey account, some h.wrapped)]

variable {h : Holding} {account : String}

/-- A holding has the slots of its account and its DID. -/
theorem slots_records (h : Holding) (account : String) :
    (h.records account).map Prod.fst = Slot.ofAccount account h.did := rfl

/-- These slots are distinct. -/
theorem nodup_records (h : Holding) (account : String) :
    ((h.records account).map Prod.fst).Nodup := by
  rw [slots_records]
  simp [Slot.ofAccount]

/-- Every record of a holding is in one of them. -/
theorem mem_slots {c : Change} (hc : c ∈ h.records account) :
    c.1 ∈ Slot.ofAccount account h.did := by
  rw [← slots_records]
  exact List.mem_map_of_mem hc

/-- The document of a holding names the key that it is founded on, which is the
own key of the account; it is valid and read back. -/
structure Sound (h : Holding) : Prop where
  reload : KeyPair.ofPrivatePem h.own.privatePem = some h.own
  founded : h.did = didOfKey h.own.publicPem
  document : ∃ document, Document.parse h.issued.document = .ok document ∧
    document.validate = .ok () ∧ document.canonicalBytes = h.issued.document ∧
    normalizeDid document.id = h.did ∧ Founded document.methods h.own.publicPem

end Holding

/-- The records are those of the holdings, and there are no others. -/
def Represents (held : Holdings) (look : Sight) : Prop :=
  ∀ key value, look key = some value ↔
    ∃ account h s, held account = some h ∧ (s, some value) ∈ h.records account ∧
    s.key = key

/-- No two accounts share a DID. -/
def Separate (held : Holdings) : Prop :=
  ∀ ⦃account other h k⦄, held account = some h → held other = some k →
    k.did = h.did →
    other = account

section Represents

variable {held : Holdings} {look : Sight} {account other did : String}
  {h k : Holding}

/-- The store without records represents that nobody holds anything. -/
theorem represents_empty : Represents (fun _ => none) (Table.get? .empty) := by
  intro key value
  constructor
  · intro h
    cases h
  · rintro ⟨account, h, s, hheld, -⟩
    cases hheld

namespace Represents

/-- Every record of a holding is there. -/
theorem lookup {s : Slot} {value : Bytes} (hrecords : Represents held look)
    (hheld : held account = some h)
    (hmem : (s, some value) ∈ h.records account) :
    look s.key = some value :=
  (hrecords _ _).mpr ⟨account, h, s, hheld, hmem, rfl⟩

/-- The records of a holding, each in its slot. -/
theorem of_held (hrecords : Represents held look)
    (hheld : held account = some h) :
    look (Slot.spaceKey account).key = some (Utf8.encode h.own.privatePem) ∧
      look (Slot.document h.did).key = some h.issued.document ∧
      look (Slot.didOf account).key = some (Utf8.encode h.did) ∧
      look (Slot.accountOf h.did).key = some (Utf8.encode account) ∧
      look (Slot.passwordKey account).key = some h.wrapped := by
  refine ⟨hrecords.lookup hheld ?_, hrecords.lookup hheld ?_,
    hrecords.lookup hheld ?_, hrecords.lookup hheld ?_,
    hrecords.lookup hheld ?_⟩
  all_goals simp [Holding.records, Holding.lasting]

/-- What is in a slot belongs to a holding that has the slot. -/
theorem holder {s : Slot} {value : Bytes} (hrecords : Represents held look)
    (hlook : look s.key = some value) :
    ∃ account h, held account = some h ∧
      (s, some value) ∈ h.records account := by
  obtain ⟨account, h, t, hheld, hmem, hkey⟩ := (hrecords _ _).mp hlook
  rw [Slot.key_inj.mp hkey] at hmem
  exact ⟨account, h, hheld, hmem⟩

/-- Only what an account holds is in its slots. -/
theorem holder_of_spaceKey {value : Bytes} (hrecords : Represents held look)
    (hlook : look (Slot.spaceKey account).key = some value) :
    ∃ h, held account = some h ∧ value = Utf8.encode h.own.privatePem := by
  obtain ⟨other, h, hheld, hmem⟩ := hrecords.holder hlook
  simp [Holding.records, Holding.lasting] at hmem
  obtain ⟨rfl, rfl⟩ := hmem
  exact ⟨h, hheld, rfl⟩

/-- A wrapped key in the store is that of the account's holding. -/
theorem holder_of_passwordKey {value : Bytes} (hrecords : Represents held look)
    (hlook : look (Slot.passwordKey account).key = some value) :
    ∃ h, held account = some h ∧ value = h.wrapped := by
  obtain ⟨other, h, hheld, hmem⟩ := hrecords.holder hlook
  simp [Holding.records, Holding.lasting] at hmem
  obtain ⟨rfl, rfl⟩ := hmem
  exact ⟨h, hheld, rfl⟩

/-- A DID in the index is that of the account's holding. -/
theorem holder_of_didOf {value : Bytes} (hrecords : Represents held look)
    (hlook : look (Slot.didOf account).key = some value) :
    ∃ h, held account = some h ∧ value = Utf8.encode h.did := by
  obtain ⟨other, h, hheld, hmem⟩ := hrecords.holder hlook
  simp [Holding.records, Holding.lasting] at hmem
  obtain ⟨rfl, rfl⟩ := hmem
  exact ⟨h, hheld, rfl⟩

/-- An account in the reverse index holds the DID. -/
theorem holder_of_accountOf {value : Bytes} (hrecords : Represents held look)
    (hlook : look (Slot.accountOf did).key = some value) :
    ∃ account h, held account = some h ∧ h.did = did ∧
      value = Utf8.encode account := by
  obtain ⟨other, h, hheld, hmem⟩ := hrecords.holder hlook
  simp [Holding.records, Holding.lasting] at hmem
  obtain ⟨rfl, rfl⟩ := hmem
  exact ⟨other, h, hheld, rfl, rfl⟩

/-- Writing the records of a new holding of an account, with the DID that the
account had or with one that no account has, gives the account that holding. -/
theorem update (hrecords : Represents held look)
    (hsame : ∀ k, held account = some k → k.did = h.did)
    (hunique : ∀ other k, held other = some k → k.did = h.did →
      other = account) :
    Represents (Function.update held account (some h))
      (look.after (h.records account)) := by
  -- no other account has a slot of the new holding
  have howner : ∀ {other k s},
      Function.update held account (some h) other = some k →
      s ∈ Slot.ofAccount other k.did → s ∈ Slot.ofAccount account h.did →
      other = account ∧ k = h := by
    intro other k s hother hs hmem
    by_cases hsame : other = account
    · subst hsame
      rw [Function.update_self] at hother
      exact ⟨rfl, (Option.some.inj hother).symm⟩
    · rw [Function.update_of_ne hsame] at hother
      rcases Slot.account_or_did hmem hs with heq | heq
      · exact absurd heq hsame
      · exact absurd (hunique other k hother heq) hsame
  intro key value
  by_cases hwritten : ∃ c ∈ h.records account, c.1.key = key
  · obtain ⟨c, hc, rfl⟩ := hwritten
    rw [Sight.after_of_mem (h.nodup_records account) hc]
    constructor
    · intro hvalue
      have hmem : (c.1, some value) ∈ h.records account := by
        rw [← hvalue]
        exact hc
      exact ⟨account, h, c.1, Function.update_self .., hmem, rfl⟩
    · rintro ⟨other, k, s, hother, hmem, hkey⟩
      obtain rfl := Slot.key_inj.mp hkey
      have hslot := Holding.mem_slots hc
      obtain ⟨rfl, rfl⟩ := howner hother (Holding.mem_slots hmem) hslot
      have hlast : look.after (k.records other) c.1.key = c.2 :=
        Sight.after_of_mem (k.nodup_records other) hc
      rw [← hlast]
      exact Sight.after_of_mem (k.nodup_records other) hmem
  · have hothers : ∀ c ∈ h.records account, c.1.key ≠ key := by
      intro c hc hkey
      exact hwritten ⟨c, hc, hkey⟩
    rw [Sight.after_of_not_mem hothers, hrecords key value]
    constructor
    · rintro ⟨other, k, s, hother, hmem, hkey⟩
      have hne : other ≠ account := by
        rintro rfl
        have hslot := Holding.mem_slots hmem
        rw [hsame k hother, ← Holding.slots_records] at hslot
        obtain ⟨c, hc, rfl⟩ := List.mem_map.mp hslot
        exact hothers c hc hkey
      exact ⟨other, k, s, (Function.update_of_ne hne ..).trans hother,
        hmem, hkey⟩
    · rintro ⟨other, k, s, hother, hmem, hkey⟩
      have hne : other ≠ account := by
        rintro rfl
        rw [Function.update_self] at hother
        cases hother
        exact hothers _ hmem hkey
      rw [Function.update_of_ne hne] at hother
      exact ⟨other, k, s, hother, hmem, hkey⟩

/-- An account with a holding, or with a DID that no account has, is settled:
the index has nothing to give up. -/
theorem settled (hrecords : Represents held look)
    (hsame : ∀ k, held account = some k → k.did = did)
    (hunique : ∀ other k, held other = some k → k.did = did → other = account) :
    (∀ previous, look.text? (.didOf account) = some previous → previous = did) ∧
      ∀ owner, look.text? (.accountOf did) = some owner → owner = account := by
  constructor
  · intro previous hprevious
    obtain ⟨k, hheld, hvalue⟩ :=
      hrecords.holder_of_didOf (Sight.eq_of_text? hprevious)
    rw [Utf8.encode_injective hvalue]
    exact hsame k hheld
  · intro owner howner
    obtain ⟨other, k, hheld, hdid, hvalue⟩ :=
      hrecords.holder_of_accountOf (Sight.eq_of_text? howner)
    rw [Utf8.encode_injective hvalue]
    exact hunique other k hheld hdid

end Represents

end Represents

namespace Registry

variable {look : Sight} {account did : String} {canonical wrapped : Bytes}
  {own : KeyPair}
variable {h : Holding}

/-- Nothing is stale if the old entry is the one to be kept. -/
theorem stale_eq_none {found : Option String} {kept : String}
    (hkept : ∀ p, found = some p → p = kept) :
    stale found kept = none := by
  cases found with
  | none => rfl
  | some p =>
      rw [hkept p rfl]
      exact stale_self kept

/-- Storing the document of an account whose index is settled removes
nothing. -/
theorem storeChanges_of_settled
    (hdid : ∀ previous, look.text? (.didOf account) = some previous →
      previous = did)
    (howner : ∀ owner, look.text? (.accountOf did) = some owner →
      owner = account) :
    storeChanges look account did canonical =
      [(.document did, some canonical),
        (.didOf account, some (Utf8.encode did)),
       (.accountOf did, some (Utf8.encode account))] := by
  have hdocument : staleDocument look account did = none := by
    rw [staleDocument, stale_eq_none hdid]
    rfl
  have hfirst : ∀ s, (∀ x, s ≠ .document x) →
      (look.after [(.document did, some canonical)]).text? s =
        look.text? s := by
    intro s hs
    refine Sight.text?_after fun c hc => ?_
    rw [List.mem_singleton.mp hc]
    exact (hs did).symm
  have hprevious :
      staleOwner (look.after [(.document did, some canonical)]) account did =
        none := by
    rw [staleOwner, hfirst (.didOf account) (by simp), stale_eq_none hdid]
    rfl
  have hlost :
      staleDid (look.after [(.document did, some canonical)]) account did =
        none := by
    rw [staleDid, hfirst (.accountOf did) (by simp), stale_eq_none howner]
    rfl
  rw [storeChanges, hdocument]
  show [(Slot.document did, some canonical)] ++
    indexChanges (look.after [(.document did, some canonical)]) account did = _
  rw [indexChanges, hprevious]
  show _ ++ (removal
      (staleDid (look.after [(.document did, some canonical)]) account did) ++
        _) = _
  rw [hlost]
  rfl

/-- A new password key and a new document leave the records of the new
holding. -/
theorem after_resetChanges
    (hdid : ∀ previous, look.text? (.didOf account) = some previous →
      previous = h.did)
    (howner : ∀ owner, look.text? (.accountOf h.did) = some owner →
      owner = account)
    (hown : look (Slot.spaceKey account).key =
      some (Utf8.encode h.own.privatePem)) :
    look.after (resetChanges look account h.wrapped h.did h.issued.document) =
      look.after (h.records account) := by
  have hkeys : ∀ s, s ≠ .passwordKey account →
      (look.after (Custody.passwordChanges account h.wrapped)).text? s =
        look.text? s := by
    intro s hs
    refine Sight.text?_after fun c hc => ?_
    rw [slot_of_passwordChanges hc]
    exact hs.symm
  rw [resetChanges, storeChanges_of_settled]
  · funext key
    by_cases hpassword : (Slot.passwordKey account).key = key
    · subst hpassword
      simp [Custody.passwordChanges, Holding.records, Holding.lasting,
        Sight.after]
    · by_cases hspace : (Slot.spaceKey account).key = key
      · subst hspace
        simp [Custody.passwordChanges, Holding.records, Holding.lasting,
          Sight.after, hown]
      · simp [Custody.passwordChanges, Holding.records, Holding.lasting,
          Sight.after, hpassword, hspace]
  · rw [hkeys (.didOf account) (by simp)]
    exact hdid
  · rw [hkeys (.accountOf h.did) (by simp)]
    exact howner

/-- A creation leaves the records of the new holding. -/
theorem after_createChanges
    (hdid : ∀ previous, look.text? (.didOf account) = some previous →
      previous = h.did)
    (howner : ∀ owner, look.text? (.accountOf h.did) = some owner →
      owner = account)
    (hown : ∀ value, look (Slot.spaceKey account).key = some value →
      value = Utf8.encode h.own.privatePem) :
    look.after (createChanges look account h.own h.wrapped h.did
      h.issued.document) = look.after (h.records account) := by
  have hfirst : ∀ s, s ≠ .spaceKey account →
      (look.after (Custody.ownChanges look account h.own)).text? s =
        look.text? s := by
    intro s hs
    refine Sight.text?_after fun c hc => ?_
    rw [kind_of_mem_ownSlots (slot_of_ownChanges hc)]
    exact hs.symm
  have hrest :
      (look.after (Custody.ownChanges look account h.own)).after
        (resetChanges (look.after (Custody.ownChanges look account h.own))
          account h.wrapped h.did h.issued.document) =
      (look.after (Custody.ownChanges look account h.own)).after
        (h.records account) := by
    refine after_resetChanges ?_ ?_ ?_
    · rw [hfirst (.didOf account) (by simp)]
      exact hdid
    · rw [hfirst (.accountOf h.did) (by simp)]
      exact howner
    · rw [Custody.ownChanges]
      cases hspace : look (Slot.spaceKey account).key with
      | none => exact if_pos rfl
      | some value =>
          rw [← hown value hspace]
          exact hspace
  rw [createChanges, Sight.after_append, hrest, ← Sight.after_append]
  rw [Custody.ownChanges]
  cases hspace : look (Slot.spaceKey account).key with
  | some value => rfl
  | none =>
      funext key
      by_cases hkey : (Slot.spaceKey account).key = key
      · simp [Holding.records, Holding.lasting, Sight.after, hkey]
      · simp [Holding.records, Holding.lasting, Sight.after, hkey]

/-- Where the account's own key is stored, a creation changes what a new
password key changes. -/
theorem createChanges_of_stored {value : Bytes} (own : KeyPair)
    (hstored : look (Slot.spaceKey account).key = some value) :
    createChanges look account own wrapped did canonical =
      resetChanges look account wrapped did canonical := by
  rw [createChanges, Custody.ownChanges, hstored]
  rfl

/-- A password key that is wrapped anew leaves the records of the holding with
the new wrapping. -/
theorem after_rewrapped (hholds : ∀ c ∈ h.lasting account, look c.1.key = c.2)
    (rewrapped : Bytes) :
    look.after [(.passwordKey account, some rewrapped)] =
      look.after (({ h with wrapped := rewrapped } : Holding).records
        account) := by
  have hlasting : look.after (h.lasting account) = look :=
    Sight.after_of_holds hholds
  have hsplit : ({ h with wrapped := rewrapped } : Holding).records account =
      h.lasting account ++ [(.passwordKey account, some rewrapped)] := rfl
  rw [hsplit, Sight.after_append, hlasting]

end Registry

end DidVault
