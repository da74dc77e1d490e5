import DidVault.Json.Canonical

/-!
# The order of members

Names are ordered by their UTF-16 code units, which is a strict total order
since no text has the units of another one.  So members with different names
have one sorted arrangement only, and the normal form of an object can be given
by writing that arrangement down (`normal_object`).
-/

namespace DidVault

/-- The first unit of a character says how many there are. -/
theorem utf16Units_append_inj {c d : Char} {us vs : List Nat}
    (h : utf16Units c ++ us = utf16Units d ++ vs) : c = d ∧ us = vs := by
  have hc : c.val.toNat < 0xd800 ∨ 0xdfff < c.val.toNat ∧
      c.val.toNat < 0x110000 := c.valid
  have hd : d.val.toNat < 0xd800 ∨ 0xdfff < d.val.toNat ∧
      d.val.toNat < 0x110000 := d.valid
  have hc' : c.val.toNat = c.toNat := rfl
  have hd' : d.val.toNat = d.toNat := rfl
  rw [hc'] at hc
  rw [hd'] at hd
  unfold utf16Units at h
  by_cases hsmall : c.toNat < 0x10000 <;> by_cases hsmall' : d.toNat < 0x10000
  · rw [if_pos hsmall, if_pos hsmall'] at h
    obtain ⟨hunit, hrest⟩ := List.cons.inj h
    exact ⟨Char.toNat_inj.mp hunit, hrest⟩
  · rw [if_pos hsmall, if_neg hsmall'] at h
    have hunit := (List.cons.inj h).1
    omega
  · rw [if_neg hsmall, if_pos hsmall'] at h
    have hunit := (List.cons.inj h).1
    omega
  · rw [if_neg hsmall, if_neg hsmall'] at h
    obtain ⟨hlead, hrest⟩ := List.cons.inj h
    obtain ⟨htrail, hrest⟩ := List.cons.inj hrest
    exact ⟨Char.toNat_inj.mp (by omega), hrest⟩

/-- Every character has a UTF-16 unit. -/
theorem utf16Units_ne_nil (c : Char) : utf16Units c ≠ [] := by
  unfold utf16Units
  split <;> exact List.cons_ne_nil _ _

/-- Texts of the same units are the same. -/
theorem flatMap_utf16Units_injective {cs ds : List Char}
    (h : cs.flatMap utf16Units = ds.flatMap utf16Units) : cs = ds := by
  induction cs generalizing ds with
  | nil =>
      cases ds with
      | nil => rfl
      | cons d ds =>
          rw [List.flatMap_nil, List.flatMap_cons] at h
          exact absurd (List.append_eq_nil_iff.mp h.symm).1
            (utf16Units_ne_nil d)
  | cons c cs ih =>
      cases ds with
      | nil =>
          rw [List.flatMap_nil, List.flatMap_cons] at h
          exact absurd (List.append_eq_nil_iff.mp h).1 (utf16Units_ne_nil c)
      | cons d ds =>
          rw [List.flatMap_cons, List.flatMap_cons] at h
          obtain ⟨rfl, hrest⟩ := utf16Units_append_inj h
          rw [ih hrest]

/-- No name comes before itself. -/
theorem utf16Before_irrefl (a : String) : utf16Before a a = false := by
  rw [utf16Before, decide_eq_false_iff_not]
  exact List.lt_irrefl _

/-- The order of names is transitive. -/
theorem utf16Before_trans {a b c : String} (hab : utf16Before a b = true)
    (hbc : utf16Before b c = true) :
    utf16Before a c = true := by
  rw [utf16Before, decide_eq_true_eq] at *
  exact List.lt_trans hab hbc

/-- Of two names one comes before the other. -/
theorem utf16Before_total {a b : String} (hne : a ≠ b)
    (hba : utf16Before a b = false) :
    utf16Before b a = true := by
  rw [utf16Before, decide_eq_false_iff_not] at hba
  rw [utf16Before, decide_eq_true_eq]
  refine Decidable.byContradiction fun hab => ?_
  have hunits := List.le_antisymm (List.not_lt.mp hab) (List.not_lt.mp hba)
  exact hne (String.toList_inj.mp (flatMap_utf16Units_injective hunits))

namespace Json

/-- Members whose names are in order. -/
def InOrder (members : List (String × Json)) : Prop :=
  members.Pairwise fun a b => utf16Before a.1 b.1 = true

/-- Names in order are different names. -/
theorem InOrder.nodup {members : List (String × Json)} (h : InOrder members) :
    (members.map Prod.fst).Nodup := by
  rw [List.Nodup, List.pairwise_map]
  refine h.imp fun {a b} hab heq => ?_
  rw [heq, utf16Before_irrefl] at hab
  cases hab

variable {name : String} {value : Json} {done : List (String × Json)}

/-- A member of a new name comes to those that are there. -/
theorem insertMember_perm (hnew : name ∉ done.map Prod.fst) :
    (insertMember utf16Before name value done).Perm
      ((name, value) :: done) := by
  induction done with
  | nil => exact List.Perm.refl _
  | cons m rest ih =>
      obtain ⟨other, kept⟩ := m
      have hne : name ≠ other := fun h => hnew (h ▸ List.mem_cons_self ..)
      have hrest := ih fun h => hnew (List.mem_cons_of_mem _ h)
      rw [insertMember, if_neg hne]
      split
      · exact List.Perm.refl _
      · exact (hrest.cons _).trans (List.Perm.swap ..)

/-- Names in order behind a name are other names. -/
theorem InOrder.ne_of_mem {m : String × Json}
    (h : InOrder ((name, value) :: done)) (hm : m ∈ done) : m.1 ≠ name := by
  intro heq
  have hbefore := (List.pairwise_cons.mp h).1 m hm
  rw [heq, utf16Before_irrefl] at hbefore
  cases hbefore

/-- A name before the first one is before all of them. -/
theorem InOrder.cons {first : String × Json} (h : InOrder (first :: done))
    (hname : utf16Before name first.1 = true) :
    InOrder ((name, value) :: first :: done) := by
  refine List.pairwise_cons.mpr ⟨fun m hm => ?_, h⟩
  rcases List.mem_cons.mp hm with rfl | hm
  · exact hname
  · exact utf16Before_trans hname ((List.pairwise_cons.mp h).1 m hm)

/-- A member takes the place of one of the same name. -/
theorem mem_insertMember {m : String × Json} (hdone : InOrder done) :
    m ∈ insertMember utf16Before name value done ↔
      m = (name, value) ∨ m ∈ done ∧ m.1 ≠ name := by
  induction done with
  | nil => simp [insertMember]
  | cons first rest ih =>
      obtain ⟨other, kept⟩ := first
      have hrest := (List.pairwise_cons.mp hdone).2
      rw [insertMember]
      split
      · next heq =>
          subst heq
          have hother : ∀ m ∈ rest, m.1 ≠ name := fun m hm => hdone.ne_of_mem hm
          rw [List.mem_cons]
          refine or_congr_right
            ⟨fun hm => ⟨List.mem_cons_of_mem _ hm, hother m hm⟩, ?_⟩
          rintro ⟨hm, hne⟩
          rcases List.mem_cons.mp hm with rfl | hm
          · exact absurd rfl hne
          · exact hm
      · next hne =>
          split
          · next hbefore =>
              rw [List.mem_cons]
              have hfront : InOrder ((name, value) :: (other, kept) :: rest) :=
                hdone.cons hbefore
              exact or_congr_right
                ⟨fun hm => ⟨hm, hfront.ne_of_mem hm⟩, And.left⟩
          · rw [List.mem_cons, List.mem_cons, ih hrest]
            constructor
            · rintro (rfl | rfl | ⟨hm, hname⟩)
              · exact .inr ⟨.inl rfl, fun h => hne h.symm⟩
              · exact .inl rfl
              · exact .inr ⟨.inr hm, hname⟩
            · rintro (rfl | ⟨rfl | hm, hname⟩)
              · exact .inr (.inl rfl)
              · exact .inl rfl
              · exact .inr (.inr ⟨hm, hname⟩)

/-- A member is put where it belongs. -/
theorem insertMember_inOrder (hdone : InOrder done) :
    InOrder (insertMember utf16Before name value done) := by
  induction done with
  | nil => exact List.pairwise_singleton _ _
  | cons m rest ih =>
      obtain ⟨other, kept⟩ := m
      obtain ⟨hother, hrest⟩ := List.pairwise_cons.mp hdone
      rw [insertMember]
      split
      · next heq =>
          subst heq
          exact List.pairwise_cons.mpr ⟨hother, hrest⟩
      · next hne =>
          split
          · next hbefore => exact hdone.cons hbefore
          · next hbefore =>
              have hafter := utf16Before_total hne (by simpa using hbefore)
              refine List.pairwise_cons.mpr ⟨fun b hb => ?_, ih hrest⟩
              rcases (mem_insertMember hrest).mp hb with rfl | ⟨hb, -⟩
              · exact hafter
              · exact hother b hb

/-- A member with its value in normal form. -/
def normalMember (m : String × Json) : String × Json :=
  (m.1, m.2.normal)

/-- Members of different names are sorted by insertion. -/
theorem sortedMembers_inOrder (members done : List (String × Json))
    (hnodup : ((done ++ members).map Prod.fst).Nodup) (hdone : InOrder done) :
    InOrder (sortedMembers utf16Before done members) ∧
      (sortedMembers utf16Before done members).Perm
        (done ++ members.map normalMember) := by
  induction members generalizing done with
  | nil =>
      rw [sortedMembers, List.map_nil, List.append_nil]
      exact ⟨hdone, List.Perm.refl _⟩
  | cons m rest ih =>
      obtain ⟨name, value⟩ := m
      have hnew : name ∉ done.map Prod.fst := by
        rw [List.map_append, List.map_cons, List.nodup_append] at hnodup
        exact fun h => hnodup.2.2 name h name (List.mem_cons_self ..) rfl
      have hperm : (insertMember utf16Before name value.normal done).Perm
          ((name, value.normal) :: done) := insertMember_perm hnew
      have hnames :
          ((insertMember utf16Before name value.normal done ++ rest).map
            Prod.fst).Perm ((done ++ (name, value) :: rest).map Prod.fst) := by
        have hmoved := (hperm.append_right rest).map Prod.fst
        rw [List.map_append, List.map_append, List.map_cons] at *
        exact hmoved.trans List.perm_middle.symm
      obtain ⟨horder, hmore⟩ :=
        ih _ (hnames.nodup_iff.mpr hnodup) (insertMember_inOrder hdone)
      refine ⟨horder, hmore.trans ?_⟩
      rw [List.map_cons]
      exact (hperm.append_right _).trans List.perm_middle.symm

/-- The normal form of an object is its only arrangement in order. -/
theorem normal_object {members target : List (String × Json)}
    (hperm : target.Perm (members.map normalMember))
    (htarget : InOrder target) :
    (object members).normal = object target := by
  have hnames : (members.map normalMember).map Prod.fst =
      members.map Prod.fst := by
    rw [List.map_map]
    rfl
  have hnodup : (members.map Prod.fst).Nodup := by
    rw [← hnames]
    exact (hperm.map Prod.fst).nodup_iff.mp htarget.nodup
  obtain ⟨horder, hsorted⟩ :=
    sortedMembers_inOrder members [] hnodup List.Pairwise.nil
  have hsame : sortedMembers utf16Before [] members = target := by
    refine List.Perm.eq_of_pairwise (fun a b _ _ hab hba => ?_) horder htarget
      (hsorted.trans hperm.symm)
    have hloop := utf16Before_trans hab hba
    rw [utf16Before_irrefl] at hloop
    cases hloop
  rw [normal, sorted, hsame]

/-- An array's normal form has the normal forms of its items. -/
theorem normal_array (items : List Json) :
    (array items).normal = array (items.map normal) := by
  have hitems : sortedItems utf16Before items = items.map normal := by
    induction items with
    | nil => rfl
    | cons item rest ih =>
        rw [sortedItems, ih]
        rfl
  rw [normal, sorted, hitems]

end Json

end DidVault
