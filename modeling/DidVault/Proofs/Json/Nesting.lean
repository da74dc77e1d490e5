import DidVault.Proofs.Json.Records

/-!
# How deep what is read is nested

A reader that may open so many lists and records takes nothing that is nested
deeper, whatever text it reads (`yields_value`, `yields_items`).  `Yields`
states such a property of all that a reader can take; for a record it is one of
the record in every stage of being filled (`Shape.yields_read`).
-/

namespace DidVault.Json

/-- Whatever the reader takes has the property. -/
def Yields {α : Type} (reader : Reader α) (P : α → Prop) : Prop :=
  ∀ ⦃ts a rest⦄, reader ts = .ok (a, rest) → P a

variable {α σ : Type}

namespace Yields

variable {reader : Reader α} {P : α → Prop}

theorem trivial (reader : Reader α) : Yields reader fun _ => True :=
  fun _ _ _ _ => True.intro

/-- What is absent has the property too, if nothing has to be shown of it. -/
theorem optional (h : Yields reader P) (Q : Option α → Prop) (hnone : Q none)
    (hsome : ∀ a, P a → Q (some a)) :
    Yields (optional reader) Q := by
  intro ts a rest hread
  unfold Json.optional at hread
  split at hread
  · cases hread
    exact hnone
  · split at hread
    · next b _ hitem =>
        cases hread
        exact hsome b (h hitem)
    · cases hread

/-- Nothing but the colon stands in front of the value of a member. -/
theorem behindColon (h : Yields reader P) : Yields (behindColon reader) P := by
  intro ts a rest hread
  unfold Json.behindColon at hread
  split at hread
  · cases hread
  · exact h hread

end Yields

/-- Every item of a list has the property of items. -/
theorem yields_itemsFrom {item : Reader α} {P : α → Prop}
    (hitem : Yields item P) (fuel : Nat) (first : Bool) :
    Yields (itemsFrom item fuel first) fun as => ∀ a ∈ as, P a := by
  induction fuel generalizing first with
  | zero =>
      intro ts as rest hread
      cases hread
  | succ fuel ih =>
      intro ts as rest hread
      unfold itemsFrom at hread
      split at hread
      · cases hread
      · cases hread
        exact nofun
      · split at hread
        · cases hread
        · next a _ ha =>
            split at hread
            · cases hread
            · next more _ hmore =>
                cases hread
                exact List.forall_mem_cons.mpr ⟨hitem ha, ih false hmore⟩

/-- A list of items that are nested less deep than it. -/
theorem yields_items {item : Nat → Reader α} {write : α → Json}
    (hitem : ∀ limit, Yields (item limit) fun a => (write a).depth ≤ limit)
    (limit : Nat) :
    Yields (items item limit) fun as =>
      (array (as.map write)).depth ≤ limit := by
  intro ts as rest hread
  unfold items at hread
  split at hread
  · split at hread
    · cases hread
    · next limit =>
        have hitems := yields_itemsFrom (hitem limit) _ _ hread
        refine Nat.succ_le_succ (itemsDepth_le_iff.mpr fun v hv => ?_)
        obtain ⟨a, ha, rfl⟩ := List.mem_map.mp hv
        exact hitems a ha
  · cases hread

/-- What every member keeps is kept by all members. -/
theorem yields_membersFrom {member : σ → String → Reader σ} {I : σ → Prop}
    (hmember : ∀ s name, I s → Yields (member s name) I) (fuel : Nat)
    (first : Bool) {s : σ} (hs : I s) :
    Yields (membersFrom member fuel first s) I := by
  induction fuel generalizing first s with
  | zero =>
      intro ts a rest hread
      cases hread
  | succ fuel ih =>
      intro ts a rest hread
      unfold membersFrom at hread
      split at hread
      · cases hread
      · cases hread
        exact hs
      · cases hread
      · split at hread
        · cases hread
        · next hone => exact ih false (hmember _ _ hs hone) hread

/-- No value is nested deeper than the reader allows. -/
theorem yields_value (limit : Nat) :
    Yields (value limit) fun v => v.depth ≤ limit := by
  induction limit with
  | zero =>
      intro ts v rest hread
      unfold value at hread
      split at hread <;> cases hread <;> exact Nat.le_refl 0
  | succ limit ih =>
      intro ts v rest hread
      unfold value at hread
      split at hread
      case h_5 =>
        dsimp only at hread
        split at hread
        · next items _ hitems =>
            cases hread
            exact Nat.succ_le_succ
              (itemsDepth_le_iff.mpr (yields_itemsFrom ih _ _ hitems))
        · cases hread
      case h_6 =>
        dsimp only at hread
        split at hread
        · next members _ hmembers =>
            cases hread
            refine Nat.succ_le_succ (membersDepth_le_iff.mpr ?_)
            refine yields_membersFrom
              (I := fun ms => ∀ m ∈ ms, m.2.depth ≤ limit) ?_ _ _
                (List.forall_mem_nil _) hmembers
            intro ms name hms ts ms' rest' hone
            dsimp only at hone
            split at hone
            · next w _ hw =>
                cases hone
                refine List.forall_mem_append.mpr
                  ⟨hms, List.forall_mem_singleton.mpr ?_⟩
                exact ih.behindColon hw
            · cases hone
        · cases hread
      case h_7 => cases hread
      all_goals
        cases hread
        exact Nat.zero_le _

namespace Shape

variable {shape : Shape σ} {limit : Nat} {I : σ → Prop}

/-- A record keeps a property if every field keeps it. -/
theorem yields_member
    (hfield : ∀ field ∈ shape.fields, ∀ record, I record →
      Yields (field.read limit record) I)
    (state : List String × σ) (name : String) (hstate : I state.2) :
    Yields (shape.member limit state name) fun state => I state.2 := by
  intro ts state' rest hread
  unfold member at hread
  split at hread
  · split at hread
    · cases hread
      exact hstate
    · cases hread
  · next field hfound =>
      split at hread
      · cases hread
      · split at hread
        · next hone =>
            cases hread
            have hmem : field ∈ shape.fields := List.mem_of_find?_eq_some hfound
            exact (hfield field hmem state.2 hstate).behindColon hone
        · cases hread

/-- A record that is read from an array, field by field, keeps a property if
every field keeps it. -/
theorem yields_fieldsFrom (index : Nat) (fields : List (Field σ)) {record : σ}
    (hfield : ∀ field ∈ fields, ∀ record, I record →
      Yields (field.read limit record) I)
    (hrecord : I record) :
    Yields (shape.fieldsFrom limit index fields record) I := by
  induction fields generalizing index record with
  | nil =>
      intro ts a rest hread
      unfold fieldsFrom at hread
      split at hread
      · cases hread
        exact hrecord
      · cases hread
  | cons field fields ih =>
      obtain ⟨hfirst, hmore⟩ := List.forall_mem_cons.mp hfield
      intro ts a rest hread
      unfold fieldsFrom at hread
      split at hread
      · cases hread
      · split at hread
        · next hone => exact ih _ hmore (hfirst record hrecord hone) hread
        · cases hread
      · split at hread
        · cases hread
        · exact ih _ hmore hrecord hread

/-- What the blank record has and every field keeps, every record has that is
read, from an object or from an array. -/
theorem yields_read (hblank : I shape.blank)
    (hfield : ∀ field ∈ shape.fields, ∀ record, I record →
      Yields (field.read limit record) I) :
    Yields (shape.read (limit + 1)) I := by
  intro ts a rest hread
  unfold read at hread
  split at hread
  · exact yields_fieldsFrom 0 shape.fields hfield hblank hread
  · dsimp only at hread
    unfold members at hread
    split at hread
    · cases hread
    · next hmembers =>
        split at hread
        · cases hread
        · cases hread
          exact yields_membersFrom (I := fun state => I state.2)
            (yields_member hfield) _ _ hblank hmembers
  · cases hread

/-- A record is one level of its own. -/
theorem yields_read_zero : Yields (shape.read 0) I := by
  intro ts a rest hread
  unfold read at hread
  split at hread <;> cases hread

end Shape

/-- A field that keeps the property, whatever its item is put into. -/
theorem Field.yields_of {name : String} {required : Bool}
    {item : Nat → Reader α} {put : σ → α → σ} {limit : Nat} {record : σ}
    {P : α → Prop} {I : σ → Prop} (hitem : Yields (item limit) P)
    (hput : ∀ a, P a → I (put record a)) :
    Yields ((Field.of name required item put).read limit record) I := by
  intro ts a rest hread
  simp only [Field.of] at hread
  split at hread
  · next b _ hb =>
      cases hread
      exact hput b (hitem hb)
  · cases hread

end DidVault.Json
