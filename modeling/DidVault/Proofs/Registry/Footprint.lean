import DidVault.Proofs.Registry.Calls

/-!
# The footprint of a call

The slots that a call may change are known from what was visible before and from
its answer (`Call.footprint`): the keys of the account, the document and index
entries of the account and its DID, and what the account's previous DID and the
DID's previous account lose.  A successful call changes nothing else
(`Call.frame`), and its answer is what the records hold behind it
(`Call.Stored`).
-/

namespace DidVault

namespace Sight

variable {look : Sight} {changes : List Change} {s : Slot}

/-- A slot that is not changed keeps its value. -/
theorem after_slot (hs : ∀ c ∈ changes, c.1 ≠ s) :
    look.after changes s.key = look s.key := by
  refine after_of_not_mem fun c hc h => ?_
  exact hs c hc (Slot.key_inj.mp h)

/-- Changes of other slots leave the text under a slot as it was. -/
theorem text?_after (hs : ∀ c ∈ changes, c.1 ≠ s) :
    (look.after changes).text? s = look.text? s := by
  rw [text?, text?, after_slot hs]

/-- A text that is found after changes which only remove it was there before. -/
theorem text?_of_removed {text : String}
    (hs : ∀ c ∈ changes, c.1 = s → c.2 = none)
    (htext : (look.after changes).text? s = some text) :
    look.text? s = some text := by
  induction changes generalizing look with
  | nil => exact htext
  | cons c rest ih =>
      have hfirst := ih (fun d hd => hs d (List.mem_cons_of_mem _ hd)) htext
      by_cases hc : c.1 = s
      · have hnone : c.2 = none := hs c (List.mem_cons_self ..) hc
        simp [text?, hc, hnone] at hfirst
      · simpa [text?, hc] using hfirst

end Sight

variable {look : Sight} {account did : String} {canonical : Bytes} {c : Change}

/-- A removal changes at most one slot, which it empties. -/
theorem mem_removal {s : Option Slot} :
    c ∈ removal s ↔ s = some c.1 ∧ c.2 = none := by
  cases s with
  | none => simp [removal]
  | some t =>
      obtain ⟨u, value⟩ := c
      simp only [removal, Option.toList_some, List.map_cons, List.map_nil,
        List.mem_singleton, Prod.mk.injEq, Option.some.injEq]
      exact ⟨fun h => ⟨h.1.symm, h.2⟩, fun h => ⟨h.1.symm, h.2⟩⟩

/-- The slots that indexing an account under a DID may change. -/
def indexSlots (look : Sight) (account did : String) : List Slot :=
  [.didOf account, .accountOf did]
    ++ (staleOwner look account did).toList ++
      (staleDid look account did).toList

/-- What is removed of the DID that an account loses is no text that is looked
for afterwards. -/
theorem staleDid_of_removed {s : Slot}
    (hstale : staleDid (look.after (removal (staleOwner look account did)))
      account did = some s) :
    staleDid look account did = some s := by
  simp only [staleDid, stale, Option.map_eq_some_iff, Option.filter_eq_some_iff]
    at hstale ⊢
  obtain ⟨owner, ⟨hfound, hother⟩, rfl⟩ := hstale
  refine ⟨owner, ⟨?_, hother⟩, rfl⟩
  exact Sight.text?_of_removed (fun c hc _ => (mem_removal.mp hc).2) hfound

/-- Indexing changes the slots of the index only. -/
theorem mem_indexSlots_of_change (hc : c ∈ indexChanges look account did) :
    c.1 ∈ indexSlots look account did := by
  simp only [indexChanges, List.mem_append, List.mem_cons, List.not_mem_nil,
    or_false] at hc
  simp only [indexSlots, List.mem_append, List.mem_cons,
    List.not_mem_nil, or_false, Option.mem_toList]
  rcases hc with (hc | hc) | rfl | rfl
  · exact .inl (.inr (mem_removal.mp hc).1)
  · exact .inr (staleDid_of_removed (mem_removal.mp hc).1)
  · exact .inl (.inl (.inl rfl))
  · exact .inl (.inl (.inr rfl))

/-- Slots of the index belong to the index. -/
theorem kind_of_mem_indexSlots {s : Slot}
    (hs : s ∈ indexSlots look account did) :
    (∃ a, s = .didOf a) ∨ ∃ x, s = .accountOf x := by
  simp only [indexSlots, staleOwner, staleDid, List.mem_append, List.mem_cons,
    List.not_mem_nil, or_false, Option.mem_toList, Option.map_eq_some_iff] at hs
  rcases hs with (hs | ⟨p, -, rfl⟩) | ⟨o, -, rfl⟩
  · exact hs.imp (fun h => ⟨_, h⟩) fun h => ⟨_, h⟩
  · exact .inr ⟨_, rfl⟩
  · exact .inl ⟨_, rfl⟩

/-- Indexing depends on what the index holds, and on nothing else. -/
theorem indexSlots_after {changes : List Change}
    (hchanges : ∀ c ∈ changes, (∀ a, c.1 ≠ .didOf a) ∧ ∀ x,
      c.1 ≠ .accountOf x) :
    indexSlots (look.after changes) account did =
      indexSlots look account did := by
  have hdid : (look.after changes).text? (.didOf account) =
      look.text? (.didOf account) :=
    Sight.text?_after fun c hc => (hchanges c hc).1 account
  have howner : (look.after changes).text? (.accountOf did) =
      look.text? (.accountOf did) :=
    Sight.text?_after fun c hc => (hchanges c hc).2 did
  rw [indexSlots, indexSlots, staleOwner, staleOwner, staleDid, staleDid,
    hdid, howner]

namespace Registry

/-- The slots of documents that storing a document may change. -/
def documentSlots (look : Sight) (account did : String) : List Slot :=
  .document did :: (staleDocument look account did).toList

/-- The document slots are slots of documents. -/
theorem kind_of_mem_documentSlots {s : Slot}
    (hs : s ∈ documentSlots look account did) : ∃ x, s = .document x := by
  simp only [documentSlots, staleDocument, List.mem_cons, Option.mem_toList,
    Option.map_eq_some_iff] at hs
  rcases hs with rfl | ⟨p, -, rfl⟩
  · exact ⟨_, rfl⟩
  · exact ⟨_, rfl⟩

/-- Storing a document changes slots of documents and of the index. -/
theorem mem_slots_of_storeChanges
    (hc : c ∈ storeChanges look account did canonical) :
    c.1 ∈ documentSlots look account did ++ indexSlots look account did := by
  have hfirst :
      ∀ c ∈ removal
        (staleDocument look account did) ++ [(.document did, some canonical)],
        c.1 ∈ documentSlots look account did := by
    intro c hc
    rcases List.mem_append.mp hc with h | h
    · exact List.mem_cons_of_mem _ (Option.mem_toList.mpr (mem_removal.mp h).1)
    · rw [List.mem_singleton.mp h]
      exact List.mem_cons_self ..
  rw [storeChanges] at hc
  rcases List.mem_append.mp hc with h | h
  · exact List.mem_append_left _ (hfirst c h)
  · refine List.mem_append_right _ ?_
    have hindex := mem_indexSlots_of_change h
    rwa [indexSlots_after] at hindex
    intro b hb
    obtain ⟨x, hx⟩ := kind_of_mem_documentSlots (hfirst b hb)
    simp [hx]

/-- The slot of the account's own key, if there is none yet. -/
def ownSlots (look : Sight) (account : String) : List Slot :=
  if look (Slot.spaceKey account).key = none then [.spaceKey account] else []

/-- Wrapping a password key changes the account's slot for it. -/
theorem slot_of_passwordChanges {wrapped : Bytes}
    (hc : c ∈ Custody.passwordChanges account wrapped) :
    c.1 = .passwordKey account := by
  simp only [Custody.passwordChanges, List.cons_append, List.nil_append,
    List.mem_cons, List.not_mem_nil, or_false] at hc
  rcases hc with rfl | rfl <;> rfl

/-- Storing a document leaves the own keys of all accounts alone. -/
theorem spaceKey_not_mem_slots (owner : String) :
    Slot.spaceKey owner ∉
      documentSlots look account did ++ indexSlots look account did := by
  intro hmem
  rcases List.mem_append.mp hmem with h | h
  · obtain ⟨x, hx⟩ := kind_of_mem_documentSlots h
    cases hx
  · rcases kind_of_mem_indexSlots h with ⟨x, hx⟩ | ⟨x, hx⟩ <;> cases hx

/-- A reset leaves the own keys of all accounts alone. -/
theorem slot_ne_spaceKey_of_resetChanges {wrapped : Bytes} (owner : String)
    (hc : c ∈ resetChanges look account wrapped did canonical) :
    c.1 ≠ .spaceKey owner := by
  intro hslot
  rcases List.mem_append.mp hc with h | h
  · cases (slot_of_passwordChanges h).symm.trans hslot
  · have hmem := mem_slots_of_storeChanges h
    rw [hslot] at hmem
    exact spaceKey_not_mem_slots owner hmem

/-- An account's own key is stored under its slot, if it is stored at all. -/
theorem slot_of_ownChanges {own : KeyPair}
    (hc : c ∈ Custody.ownChanges look account own) :
    c.1 ∈ ownSlots look account := by
  unfold Custody.ownChanges at hc
  split at hc
  · simp at hc
  · next hnone =>
      rw [List.mem_singleton.mp hc, ownSlots, if_pos hnone]
      exact List.mem_cons_self ..

/-- The own slots are slots of space keys. -/
theorem kind_of_mem_ownSlots {s : Slot} (hs : s ∈ ownSlots look account) :
    s = .spaceKey account := by
  unfold ownSlots at hs
  split at hs
  · exact List.mem_singleton.mp hs
  · simp at hs

/-- Changes of keys do not touch what storing a document depends on. -/
theorem storeSlots_after {changes : List Change}
    (hchanges : ∀ c ∈ changes, c.1 = .spaceKey account ∨
      c.1 = .passwordKey account) :
    documentSlots (look.after changes) account did ++
      indexSlots (look.after changes) account did =
        documentSlots look account did ++ indexSlots look account did := by
  have hindex : indexSlots (look.after changes) account did =
      indexSlots look account did := by
    refine indexSlots_after fun c hc => ?_
    rcases hchanges c hc with h | h <;> simp [h]
  have hdid : (look.after changes).text? (.didOf account) =
      look.text? (.didOf account) := by
    refine Sight.text?_after fun c hc => ?_
    rcases hchanges c hc with h | h <;> simp [h]
  rw [hindex, documentSlots, documentSlots, staleDocument, staleDocument, hdid]

/-- What a document is stored and indexed under is what is found there
afterwards. -/
theorem after_storeChanges :
    look.after (storeChanges look account did canonical)
        (Slot.document did).key = some canonical ∧
      look.after (storeChanges look account did canonical)
        (Slot.didOf account).key = some (Utf8.encode did) ∧
      look.after (storeChanges look account did canonical)
        (Slot.accountOf did).key = some (Utf8.encode account) := by
  rw [storeChanges, Sight.after_append]
  refine ⟨?_, ?_, ?_⟩
  · rw [Sight.after_slot, Sight.after_concat, if_pos rfl]
    intro c hc
    rcases kind_of_mem_indexSlots (mem_indexSlots_of_change hc) with
      ⟨a, h⟩ | ⟨x, h⟩ <;> simp [h]
  · simp [indexChanges, Sight.after_append, Sight.after]
  · simp [indexChanges, Sight.after_append, Sight.after]

/-- Storing a document leaves the keys alone. -/
theorem after_storeChanges_of_key {s : Slot}
    (hs : s = .spaceKey account ∨ s = .passwordKey account) :
    look.after (storeChanges look account did canonical) s.key =
      look s.key := by
  refine Sight.after_slot fun c hc => ?_
  have hkind : (∃ x, c.1 = .document x) ∨ (∃ a, c.1 = .didOf a) ∨ ∃ x,
      c.1 = .accountOf x := by
    rcases List.mem_append.mp (mem_slots_of_storeChanges hc) with h | h
    · exact .inl (kind_of_mem_documentSlots h)
    · exact .inr (kind_of_mem_indexSlots h)
  rcases hs with rfl | rfl <;> rcases hkind with ⟨x, h⟩ | ⟨x, h⟩
    | ⟨x, h⟩ <;> simp [h]

end Registry

namespace Call

open Registry

/-- The slots that a call may change if it succeeds with an answer. -/
def footprint (look : Sight) : Call → Answer → List Slot
  | create _ account _ _, .issued doc =>
      ownSlots look account ++ .passwordKey account ::
        (documentSlots look account (normalizeDid doc.did)
          ++ indexSlots look account (normalizeDid doc.did))
  | reset _ lookup _, .issued doc =>
      match account? look lookup with
      | some account => .passwordKey account ::
          (documentSlots look account (normalizeDid doc.did)
            ++ indexSlots look account (normalizeDid doc.did))
      | none => []
  | updatePassword account _ _, .rewrapped _ => [.passwordKey account]
  | saveIndex account did, .indexed =>
      indexSlots look account (normalizeDid did)
  | _, _ => []

/-- A call changes no other slots. -/
theorem mem_footprint {look : Sight} {call : Call} {answer : Answer}
    {changes : List Change} {c : Change}
    (heffect : call.Effect look answer changes) (hc : c ∈ changes) :
    c.1 ∈ call.footprint look answer := by
  cases call with
  | create now account password keys =>
      cases answer with
      | issued doc =>
          obtain ⟨own, rfl⟩ := heffect
          simp only [footprint]
          simp only [createChanges, resetChanges, ← Sight.after_append,
            ← List.append_assoc] at hc
          rcases List.mem_append.mp hc with h | h
          · rcases List.mem_append.mp h with h | h
            · exact List.mem_append_left _ (slot_of_ownChanges h)
            · rw [slot_of_passwordChanges h]
              exact List.mem_append_right _ (List.mem_cons_self ..)
          · refine List.mem_append_right _ (List.mem_cons_of_mem _ ?_)
            have hslots := mem_slots_of_storeChanges h
            rwa [storeSlots_after] at hslots
            intro b hb
            rcases List.mem_append.mp hb with h | h
            · exact .inl (kind_of_mem_ownSlots (slot_of_ownChanges h))
            · exact .inr (slot_of_passwordChanges h)
      | rewrapped wrapped => exact heffect.elim
      | indexed => exact heffect.elim
  | reset now lookup password =>
      cases answer with
      | issued doc =>
          obtain ⟨account, haccount, rfl⟩ := heffect
          simp only [footprint, haccount]
          simp only [resetChanges] at hc
          rcases List.mem_append.mp hc with h | h
          · rw [slot_of_passwordChanges h]
            exact List.mem_cons_self ..
          · refine List.mem_cons_of_mem _ ?_
            have hslots := mem_slots_of_storeChanges h
            rwa [storeSlots_after] at hslots
            intro b hb
            exact .inr (slot_of_passwordChanges hb)
      | rewrapped wrapped => exact heffect.elim
      | indexed => exact heffect.elim
  | updatePassword account old new =>
      cases answer with
      | rewrapped wrapped =>
          obtain rfl := heffect
          rw [List.mem_singleton.mp hc]
          exact List.mem_cons_self ..
      | issued doc => exact heffect.elim
      | indexed => exact heffect.elim
  | saveIndex account did =>
      cases answer with
      | indexed =>
          obtain rfl := heffect
          exact mem_indexSlots_of_change hc
      | issued doc => exact heffect.elim
      | rewrapped wrapped => exact heffect.elim

/-- A key outside the footprint of a call keeps its value. -/
theorem frame {look : Sight} {call : Call} {answer : Answer}
    {changes : List Change} {key : Bytes}
    (heffect : call.Effect look answer changes)
    (hkey : ∀ s ∈ call.footprint look answer, s.key ≠ key) :
    look.after changes key = look key :=
  Sight.after_of_not_mem fun c hc => hkey c.1 (mem_footprint heffect hc)

end Call

/-- An account's document as it was issued, with the password key and the index
that belong to it. -/
structure IssuedDocument.StoredFor (doc : IssuedDocument) (account : String)
    (look : Sight) : Prop where
  passwordKey : look (Slot.passwordKey account).key = some doc.wrapped
  document : look (Slot.document (normalizeDid doc.did)).key = some doc.document
  didOf : look (Slot.didOf account).key =
    some (Utf8.encode (normalizeDid doc.did))
  accountOf : look (Slot.accountOf (normalizeDid doc.did)).key =
    some (Utf8.encode account)

namespace Registry

/-- After its changes the document is stored for the account, with the index and
the wrapped key. -/
theorem storedFor_of_changes {doc : IssuedDocument} {keys : List Change}
    (hkeys : look.after keys (Slot.passwordKey account).key =
      some doc.wrapped) :
    doc.StoredFor account (look.after
      (keys ++ storeChanges (look.after keys) account
        (normalizeDid doc.did) doc.document)) := by
  rw [Sight.after_append]
  exact ⟨(after_storeChanges_of_key (.inr rfl)).trans hkeys,
    after_storeChanges.1, after_storeChanges.2.1, after_storeChanges.2.2⟩

end Registry

namespace Call

open Registry

/-- The records `after` hold what a call answered, which was made on the records
`look`. -/
def Stored (look after : Sight) : Call → Answer → Prop
  | create _ account _ _, .issued doc => doc.StoredFor account after
  | reset _ lookup _, .issued doc =>
      ∃ account, account? look lookup = some account ∧
        doc.StoredFor account after
  | updatePassword account _ _, .rewrapped wrapped =>
      after (Slot.passwordKey account).key = some wrapped
  | saveIndex account did, .indexed =>
      after (Slot.didOf account).key = some (Utf8.encode (normalizeDid did)) ∧
        after (Slot.accountOf (normalizeDid did)).key =
          some (Utf8.encode account)
  | _, _ => False

/-- What a call answers is what the records hold behind it. -/
theorem stored_of_effect {look : Sight} {call : Call} {answer : Answer}
    {changes : List Change} (heffect : call.Effect look answer changes) :
    call.Stored look (look.after changes) answer := by
  cases call with
  | create now account password keys =>
      cases answer with
      | issued doc =>
          obtain ⟨own, rfl⟩ := heffect
          simp only [createChanges, resetChanges]
          rw [Sight.after_append]
          refine storedFor_of_changes ?_
          simp [Custody.passwordChanges, Sight.after]
      | rewrapped wrapped => exact heffect.elim
      | indexed => exact heffect.elim
  | reset now lookup password =>
      cases answer with
      | issued doc =>
          obtain ⟨account, haccount, rfl⟩ := heffect
          refine ⟨account, haccount, storedFor_of_changes ?_⟩
          simp [Custody.passwordChanges, Sight.after]
      | rewrapped wrapped => exact heffect.elim
      | indexed => exact heffect.elim
  | updatePassword account old new =>
      cases answer with
      | rewrapped wrapped =>
          obtain rfl := heffect
          simp [Stored, Sight.after]
      | issued doc => exact heffect.elim
      | indexed => exact heffect.elim
  | saveIndex account did =>
      cases answer with
      | indexed =>
          obtain rfl := heffect
          simp [Stored, indexChanges, Sight.after_append, Sight.after]
      | issued doc => exact heffect.elim
      | rewrapped wrapped => exact heffect.elim

end Call

end DidVault
