import DidVault.Proofs.Registry.Footprint

/-!
# The index is one to one

The index has two directions, one record each.  They are inverse to each other
if an account is mapped to a DID exactly if the DID is mapped back to the
account (`Paired`).  Indexing an account under a DID takes out whatever was
mapped to one of them, in both directions, and puts in the new pair
(`maps_after_indexChanges`, `mapsBack_after_indexChanges`); the other changes
that calls make do not touch the index.  So every call that succeeds keeps the
two directions inverse (`Paired.of_effect`).
-/

namespace DidVault

/-- The places of the index. -/
def Slot.Indexes : Slot → Prop
  | didOf _ | accountOf _ => True
  | spaceKey _ | passwordKey _ | document _ => False

namespace Sight

/-- An account is mapped to a DID. -/
def Maps (look : Sight) (account did : String) : Prop :=
  look (Slot.didOf account).key = some (Utf8.encode did)

/-- A DID is mapped back to an account. -/
def MapsBack (look : Sight) (did account : String) : Prop :=
  look (Slot.accountOf did).key = some (Utf8.encode account)

/-- Every key that holds something is that of a slot. -/
def Slotted (look : Sight) : Prop :=
  ∀ key value, look key = some value → ∃ s : Slot, s.key = key

variable {look look' : Sight} {account other did e : String} {s : Slot}
  {changes : List Change}

/-- Changes of slots write under the keys of slots only. -/
theorem Slotted.after (h : Slotted look) (changes : List Change) :
    Slotted (look.after changes) := by
  intro key value hvalue
  by_cases hkey : ∃ c ∈ changes, c.1.key = key
  · obtain ⟨c, -, hc⟩ := hkey
    exact ⟨c.1, hc⟩
  · rw [after_of_not_mem fun c hc heq => hkey ⟨c, hc, heq⟩] at hvalue
    exact h key value hvalue

/-- The two directions of the index hold texts, DIDs without query and fragment,
and are inverse to each other. -/
structure Paired (look : Sight) : Prop where
  text : ∀ s : Slot, s.Indexes → ∀ value, look s.key = some value → ∃ t,
    value = Utf8.encode t
  normal : ∀ did account, look.MapsBack did account → normalizeDid did = did
  inverse : ∀ account did, look.Maps account did ↔ look.MapsBack did account

/-- A DID maps back to at most one account. -/
theorem MapsBack.account_eq (h : look.MapsBack did account)
    (h' : look.MapsBack did other) : other = account :=
  Utf8.encode_injective (Option.some.inj (h'.symm.trans h))

namespace Paired

/-- The index of a store without records is paired. -/
theorem start : Paired (Table.get? .empty) where
  text _ _ _ h := nomatch h
  normal _ _ h := nomatch h
  inverse _ _ := ⟨nofun, nofun⟩

/-- Only the places of the index matter. -/
theorem congr (h : Paired look)
    (hsame : ∀ s : Slot, s.Indexes → look' s.key = look s.key) :
    Paired look' where
  text s hs value hvalue := h.text s hs value (hsame s hs ▸ hvalue)
  normal did account hmaps := by
    rw [MapsBack, hsame (.accountOf did) trivial] at hmaps
    exact h.normal did account hmaps
  inverse account did := by
    rw [Maps, MapsBack, hsame (.didOf account) trivial,
      hsame (.accountOf did) trivial]
    exact h.inverse account did

/-- No two accounts are mapped to the same DID. -/
theorem account_eq (h : Paired look) (hmaps : look.Maps account did)
    (hother : look.Maps other did) : other = account :=
  ((h.inverse account did).mp hmaps).account_eq
    ((h.inverse other did).mp hother)

/-- Changes of other records leave the index paired. -/
theorem after_aside (h : Paired look)
    (hchanges : ∀ c ∈ changes, ¬ c.1.Indexes) :
    Paired (look.after changes) := by
  refine h.congr fun s hs => after_slot fun c hc heq => ?_
  exact hchanges c hc (heq ▸ hs)

end Paired

/-- A removal takes at most its own slot away. -/
theorem after_removal (look : Sight) (removed : Option Slot) (s : Slot) :
    look.after (removal removed) s.key = if removed =
      some s then none else look s.key := by
  cases removed with
  | none => simp [removal]
  | some t => simp [removal, after]

/-- The DID that an account loses is one that it was mapped to. -/
theorem staleOwner_eq_some_iff (h : Paired look) :
    staleOwner look account did = some s ↔
      ∃ previous, look.Maps account previous ∧ previous ≠ did ∧
      s = .accountOf previous := by
  simp only [staleOwner, stale, Option.map_eq_some_iff,
    Option.filter_eq_some_iff, decide_eq_true_eq, text?_eq_some_iff]
  constructor
  · rintro ⟨previous, ⟨hmaps, hne⟩, rfl⟩
    rw [h.normal previous account ((h.inverse account previous).mp hmaps)]
    exact ⟨previous, hmaps, hne, rfl⟩
  · rintro ⟨previous, hmaps, hne, rfl⟩
    refine ⟨previous, ⟨hmaps, hne⟩, ?_⟩
    rw [h.normal previous account ((h.inverse account previous).mp hmaps)]

/-- The account that a DID is lost by is one that it was mapped back to. -/
theorem staleDid_eq_some_iff :
    staleDid look account did = some s ↔
      ∃ owner, look.MapsBack did owner ∧ owner ≠ account ∧
      s = .didOf owner := by
  simp only [staleDid, stale, Option.map_eq_some_iff, Option.filter_eq_some_iff,
    decide_eq_true_eq, text?_eq_some_iff]
  constructor
  · rintro ⟨owner, ⟨hmaps, hne⟩, rfl⟩
    exact ⟨owner, hmaps, hne, rfl⟩
  · rintro ⟨owner, hmaps, hne, rfl⟩
    exact ⟨owner, ⟨hmaps, hne⟩, rfl⟩

/-- The removal of the one does not show in the other. -/
theorem staleDid_after_staleOwner (h : Paired look) :
    staleDid (look.after (removal (staleOwner look account did))) account did =
      staleDid look account did := by
  have hkept :
      (look.after (removal (staleOwner look account did))).text?
        (.accountOf did) = look.text? (.accountOf did) := by
    refine text?_after fun c hc heq => ?_
    obtain ⟨previous, -, hne, hc⟩ :=
      (staleOwner_eq_some_iff h).mp (mem_removal.mp hc).1
    exact hne (Slot.accountOf.inj (hc.symm.trans heq))
  rw [staleDid, hkept, staleDid]

/-- What indexing leaves in a slot. -/
theorem after_indexChanges (h : Paired look) (s : Slot) :
    look.after (indexChanges look account did) s.key =
      if .accountOf did = s then some (Utf8.encode account)
      else if .didOf account = s then some (Utf8.encode did)
      else if staleDid look account did = some s ∨
        staleOwner look account did = some s then none
      else look s.key := by
  have hsplit : indexChanges look account did =
      (removal (staleOwner look account did) ++
        removal (staleDid look account did) ++
          [(.didOf account, some (Utf8.encode did))])
        ++ [(.accountOf did, some (Utf8.encode account))] := by
    rw [indexChanges, staleDid_after_staleOwner h]
    simp
  rw [hsplit, after_concat, after_concat, after_append, after_removal,
    after_removal, ite_or]

/-- A value that is removed if it is one that must go is not that one. -/
theorem kept_iff {value : Option Bytes} {gone bytes : Bytes} :
    (if value = some gone then none else value) = some bytes ↔
      bytes ≠ gone ∧ value = some bytes := by
  split
  · next h =>
      rw [h, Option.some_inj]
      exact ⟨nofun, fun ⟨hne, heq⟩ => absurd heq.symm hne⟩
  · next h =>
      refine ⟨fun heq => ⟨?_, heq⟩, And.right⟩
      rintro rfl
      exact h heq

/-- After indexing an account maps to its new DID, and the rest of the index is
as it was where it touches neither of the two. -/
theorem maps_after_indexChanges (h : Paired look) :
    (look.after (indexChanges look account did)).Maps other e ↔
      (other = account ∧ e = did) ∨
      (other ≠ account ∧ e ≠ did ∧ look.Maps other e) := by
  rw [Maps, after_indexChanges h, if_neg nofun]
  by_cases hother : account = other
  · subst hother
    rw [if_pos rfl, Option.some_inj, Utf8.encode_inj]
    simp [eq_comm]
  · -- another account loses its DID exactly if that is the one that is indexed
    have hstale : (staleDid look account did = some (.didOf other) ∨
        staleOwner look account did = some (.didOf other)) ↔
          look (Slot.didOf other).key = some (Utf8.encode did) := by
      rw [staleDid_eq_some_iff, staleOwner_eq_some_iff h, ← Maps, h.inverse]
      constructor
      · rintro (⟨owner, hmaps, -, heq⟩ | ⟨previous, -, -, heq⟩)
        · cases heq
          exact hmaps
        · cases heq
      · exact fun hmaps => .inl ⟨other, hmaps, Ne.symm hother, rfl⟩
    rw [if_neg fun heq => hother (Slot.didOf.inj heq), if_congr hstale rfl rfl,
      kept_iff, Ne, Utf8.encode_inj]
    simp [Ne.symm hother, Maps]

/-- After indexing a DID maps back to its new account, and the rest of the index
is as it was where it touches neither of the two. -/
theorem mapsBack_after_indexChanges (h : Paired look) :
    (look.after (indexChanges look account did)).MapsBack e other ↔
      (other = account ∧ e = did) ∨
      (other ≠ account ∧ e ≠ did ∧ look.MapsBack e other) := by
  rw [MapsBack, after_indexChanges h]
  by_cases he : did = e
  · subst he
    rw [if_pos rfl, Option.some_inj, Utf8.encode_inj]
    simp [eq_comm]
  · -- another DID loses its account exactly if that is the one that is indexed
    have hstale : (staleDid look account did = some (.accountOf e) ∨
        staleOwner look account did = some (.accountOf e)) ↔
          look (Slot.accountOf e).key = some (Utf8.encode account) := by
      rw [staleDid_eq_some_iff, staleOwner_eq_some_iff h, ← MapsBack,
        ← h.inverse]
      constructor
      · rintro (⟨owner, -, -, heq⟩ | ⟨previous, hmaps, -, heq⟩)
        · cases heq
        · cases heq
          exact hmaps
      · exact fun hmaps => .inr ⟨e, hmaps, Ne.symm he, rfl⟩
    rw [if_neg fun heq => he (Slot.accountOf.inj heq), if_neg nofun,
      if_congr hstale rfl rfl, kept_iff, Ne, Utf8.encode_inj]
    simp [Ne.symm he, MapsBack]

namespace Paired

/-- Indexing keeps the two directions inverse. -/
theorem after_index (h : Paired look) (hdid : normalizeDid did = did) :
    Paired (look.after (indexChanges look account did)) where
  text s hs value hvalue := by
    rw [after_indexChanges h] at hvalue
    split at hvalue
    · exact ⟨account, (Option.some.inj hvalue).symm⟩
    · split at hvalue
      · exact ⟨did, (Option.some.inj hvalue).symm⟩
      · split at hvalue
        · cases hvalue
        · exact h.text s hs value hvalue
  normal e other hmaps := by
    rcases (mapsBack_after_indexChanges h).mp hmaps with
      ⟨-, rfl⟩ | ⟨-, -, hback⟩
    · exact hdid
    · exact h.normal e other hback
  inverse other e := by
    rw [maps_after_indexChanges h, mapsBack_after_indexChanges h, h.inverse]

end Paired

end Sight

namespace Registry

open Sight

variable {look : Sight} {account did : String} {canonical wrapped : Bytes}
  {own : KeyPair}

/-- Wrapping a password key writes no record of the index. -/
theorem aside_of_passwordChanges :
    ∀ c ∈ Custody.passwordChanges account wrapped, ¬ c.1.Indexes := by
  intro c hc
  rw [slot_of_passwordChanges hc]
  exact id

/-- Storing an account's own key writes no record of the index. -/
theorem aside_of_ownChanges :
    ∀ c ∈ Custody.ownChanges look account own, ¬ c.1.Indexes := by
  intro c hc
  rw [kind_of_mem_ownSlots (slot_of_ownChanges hc)]
  exact id

/-- Before it is indexed, a document takes the place of the one before. -/
theorem aside_of_documentChanges :
    ∀ c ∈ removal
      (staleDocument look account did) ++ [(.document did, some canonical)],
      ¬ c.1.Indexes := by
  intro c hc
  rcases List.mem_append.mp hc with hc | hc
  · have hslot : c.1 ∈ documentSlots look account did :=
      List.mem_cons_of_mem _ (Option.mem_toList.mpr (mem_removal.mp hc).1)
    obtain ⟨x, hx⟩ := kind_of_mem_documentSlots hslot
    rw [hx]
    exact id
  · rw [List.mem_singleton.mp hc]
    exact id

/-- Storing a document and indexing it keeps the index paired. -/
theorem paired_after_storeChanges (h : Paired look)
    (hdid : normalizeDid did = did) :
    Paired (look.after (storeChanges look account did canonical)) := by
  rw [storeChanges, after_append]
  exact Paired.after_index (h.after_aside aside_of_documentChanges) hdid

/-- The changes of a reset keep the index paired. -/
theorem paired_after_resetChanges (h : Paired look)
    (hdid : normalizeDid did = did) :
    Paired (look.after (resetChanges look account wrapped did canonical)) := by
  rw [resetChanges, after_append]
  exact paired_after_storeChanges (h.after_aside aside_of_passwordChanges) hdid

/-- The changes of a creation keep the index paired. -/
theorem paired_after_createChanges (h : Paired look)
    (hdid : normalizeDid did = did) :
    Paired (look.after
      (createChanges look account own wrapped did canonical)) := by
  rw [createChanges, after_append]
  exact paired_after_resetChanges (h.after_aside aside_of_ownChanges) hdid

end Registry

open Registry in
/-- Every call that succeeds keeps the two directions of the index inverse. -/
theorem Sight.Paired.of_effect {look : Sight} {call : Call} {answer : Answer}
    {changes : List Change} (h : Paired look)
    (heffect : call.Effect look answer changes) :
    Paired (look.after changes) := by
  cases call with
  | create now account password keys =>
      cases answer with
      | issued doc =>
          obtain ⟨own, rfl⟩ := heffect
          exact paired_after_createChanges h (normalizeDid_normalizeDid _)
      | rewrapped wrapped => exact heffect.elim
      | indexed => exact heffect.elim
  | reset now lookup password =>
      cases answer with
      | issued doc =>
          obtain ⟨account, -, rfl⟩ := heffect
          exact paired_after_resetChanges h (normalizeDid_normalizeDid _)
      | rewrapped wrapped => exact heffect.elim
      | indexed => exact heffect.elim
  | updatePassword account old new =>
      cases answer with
      | rewrapped wrapped =>
          obtain rfl := heffect
          refine h.after_aside fun c hc => ?_
          rw [List.mem_singleton.mp hc]
          exact id
      | issued doc => exact heffect.elim
      | indexed => exact heffect.elim
  | saveIndex account did =>
      cases answer with
      | indexed =>
          obtain rfl := heffect
          exact h.after_index (normalizeDid_normalizeDid _)
      | issued doc => exact heffect.elim
      | rewrapped wrapped => exact heffect.elim

end DidVault
