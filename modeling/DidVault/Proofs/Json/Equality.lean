import DidVault.Proofs.Json.Sorting
import Mathlib.Data.List.Nodup

/-!
# Equality of JSON values

Two JSON values are the same if they have the same scalars in the same places:
the items of arrays are compared by their position, the members of objects by
their name, where the last member of a name counts (`Json.Same`).  The normal
form of a value is the same value, and two values are the same exactly if they
have the same normal form (`normal_eq_iff_same`).
-/

namespace DidVault.Json

/-- Equality of JSON values, whatever the order and repetition of members. -/
inductive Same : Json → Json → Prop where
  | null : Same null null
  | bool (b : Bool) : Same (bool b) (bool b)
  | number (n : Number) : Same (number n) (number n)
  | string (s : String) : Same (string s) (string s)
  | array {vs ws : List Json} (hlength : vs.length = ws.length)
      (hitem : ∀ (n : Nat) v w, vs[n]? = some v → ws[n]? = some w → Same v w) :
      Same (array vs) (array ws)
  | object {ms ns : List (String × Json)}
      (hnames : ∀ name, (member? name ms).isSome = (member? name ns).isSome)
      (hvalue : ∀ name v w, member? name ms = some v →
        member? name ns = some w → Same v w) :
      Same (object ms) (object ns)

/-- What holds of a value if it holds of the items and members in it holds of
every value. -/
@[elab_as_elim]
theorem induction_mem {P : Json → Prop} (null : P null) (bool : ∀ b, P (bool b))
    (number : ∀ n, P (number n)) (string : ∀ s, P (string s))
    (array : ∀ items, (∀ v ∈ items, P v) → P (array items))
    (object : ∀ members, (∀ m ∈ members, P m.2) → P (object members))
    (v : Json) : P v :=
  @Json.rec P (fun items => ∀ v ∈ items, P v)
    (fun members => ∀ m ∈ members, P m.2) (fun m => P m.2) null bool number
      string array object
    (fun _ hv => nomatch hv)
      (fun _ _ hhead hrest => List.forall_mem_cons.mpr ⟨hhead, hrest⟩)
    (fun _ hm => nomatch hm)
      (fun _ _ hhead hrest => List.forall_mem_cons.mpr ⟨hhead, hrest⟩)
    (fun _ _ hvalue => hvalue) v

section Members

variable {name : String} {v : Json} {ms ns done : List (String × Json)}

/-- A member behind others of its name counts. -/
theorem member?_cons (name : String) (m : String × Json)
    (rest : List (String × Json)) :
    member? name (m :: rest) =
      (member? name rest).or (if m.1 = name then some m.2 else none) := by
  rw [member?, List.reverse_cons, List.find?_append, Option.map_or, member?]
  refine congrArg _ ?_
  by_cases h : m.1 = name <;> simp [h]

/-- A member that is found is one of the members. -/
theorem mem_of_member? (h : member? name ms = some v) : (name, v) ∈ ms := by
  obtain ⟨m, hfind, rfl⟩ := Option.map_eq_some_iff.mp h
  have hname : m.1 = name := by simpa using List.find?_some hfind
  rw [← hname]
  exact List.mem_reverse.mp (List.mem_of_find?_eq_some hfind)

/-- A name that is not repeated counts where it stands. -/
theorem member?_self {m : String × Json} {rest : List (String × Json)}
    (hnodup : ((m :: rest).map Prod.fst).Nodup) :
    member? m.1 rest = none ∧ member? m.1 (m :: rest) = some m.2 := by
  have hnone : member? m.1 rest = none := by
    refine Option.eq_none_iff_forall_ne_some.mpr fun v hv => ?_
    exact (List.nodup_cons.mp hnodup).1
      (List.mem_map.mpr ⟨_, mem_of_member? hv, rfl⟩)
  refine ⟨hnone, ?_⟩
  rw [member?_cons, hnone, if_pos rfl, Option.none_or]

/-- A member of another name does not count for the lookup. -/
theorem member?_of_ne {m : String × Json} {rest : List (String × Json)}
    (hname : m.1 ≠ name) :
    member? name (m :: rest) = member? name rest := by
  rw [member?_cons, if_neg hname, Option.or_none]

/-- Where names are in order, each member counts. -/
theorem member?_eq_some_iff (h : InOrder ms) :
    member? name ms = some v ↔ (name, v) ∈ ms := by
  induction ms with
  | nil => exact ⟨nofun, nofun⟩
  | cons m rest ih =>
      obtain ⟨other, w⟩ := m
      have hrest := ih (List.pairwise_cons.mp h).2
      rw [member?_cons, List.mem_cons, ← hrest]
      by_cases hname : other = name
      · subst hname
        have hnone : member? other rest = none := by
          refine Option.eq_none_iff_forall_ne_some.mpr fun u hu => ?_
          exact h.ne_of_mem (mem_of_member? hu) rfl
        simp [hnone, eq_comm]
      · simp [hname, Ne.symm hname]

/-- Members in order are known by their values. -/
theorem InOrder.ext (hms : InOrder ms) (hns : InOrder ns)
    (h : ∀ name, member? name ms = member? name ns) : ms = ns := by
  have hperm : ms.Perm ns := by
    refine (List.perm_ext_iff_of_nodup (List.Nodup.of_map _ hms.nodup)
      (List.Nodup.of_map _ hns.nodup)).mpr fun m => ?_
    rw [← member?_eq_some_iff hms, ← member?_eq_some_iff hns, h]
  refine List.Perm.eq_of_pairwise (fun a b _ _ hab hba => ?_) hms hns hperm
  have hloop := utf16Before_trans hab hba
  rw [utf16Before_irrefl] at hloop
  cases hloop

/-- Sorting keeps members in order. -/
theorem inOrder_sortedMembers (hdone : InOrder done) :
    InOrder (sortedMembers utf16Before done ms) := by
  induction ms generalizing done with
  | nil => exact hdone
  | cons m rest ih => exact ih (insertMember_inOrder hdone)

/-- Sorting keeps what counts, and puts it before what was there. -/
theorem mem_sortedMembers (hdone : InOrder done) :
    (name, v) ∈ sortedMembers utf16Before done ms ↔
      (member? name ms).map normal = some v ∨ member? name ms = none ∧
      (name, v) ∈ done := by
  induction ms generalizing done with
  | nil => simp [sortedMembers, member?]
  | cons m rest ih =>
      obtain ⟨other, w⟩ := m
      rw [sortedMembers, ih (insertMember_inOrder hdone),
        mem_insertMember hdone, member?_cons]
      cases hrest : member? name rest with
      | some u => simp
      | none =>
          by_cases hname : other = name
          · subst hname
            simp [normal, eq_comm]
          · simp [hname, Ne.symm hname]

/-- The normal form of members. -/
def normalMembers (ms : List (String × Json)) : List (String × Json) :=
  sortedMembers utf16Before [] ms

/-- The members of a normal form are in order. -/
theorem inOrder_normalMembers (ms : List (String × Json)) :
    InOrder (normalMembers ms) :=
  inOrder_sortedMembers List.Pairwise.nil

/-- The members of a normal form are the normal forms of those found by their
names. -/
theorem mem_normalMembers :
    (name, v) ∈ normalMembers ms ↔ (member? name ms).map normal = some v := by
  rw [normalMembers, mem_sortedMembers List.Pairwise.nil]
  simp

/-- What counts in the normal form is the normal form of what counts. -/
theorem member?_normalMembers (name : String) (ms : List (String × Json)) :
    member? name (normalMembers ms) = (member? name ms).map normal := by
  refine Option.ext fun v => ?_
  rw [member?_eq_some_iff (inOrder_normalMembers ms), mem_normalMembers]

theorem normal_eq_object (ms : List (String × Json)) :
    (object ms).normal = object (normalMembers ms) := rfl

end Members

variable {u v w : Json}

/-- Being the same value is symmetric. -/
theorem Same.symm (h : v.Same w) : w.Same v := by
  induction h with
  | null => exact .null
  | bool b => exact .bool b
  | number n => exact .number n
  | string s => exact .string s
  | array hlength _ ih =>
      exact .array hlength.symm fun n w v hw hv => ih n v w hv hw
  | object hnames _ ih =>
      exact .object (fun name => (hnames name).symm) fun name w v hw hv =>
        ih name v w hv hw

/-- Being the same value is transitive. -/
theorem Same.trans (huv : u.Same v) (hvw : v.Same w) : u.Same w := by
  induction huv generalizing w with
  | null => exact hvw
  | bool b => exact hvw
  | number n => exact hvw
  | string s => exact hvw
  | array hlength hitem ih =>
      cases hvw with
      | array hlength' hitem' =>
          refine .array (hlength.trans hlength') fun n u w hu hw => ?_
          obtain ⟨hn, -⟩ := List.getElem?_eq_some_iff.mp hu
          have hv := List.getElem?_eq_getElem (hlength ▸ hn)
          exact ih n u _ hu hv (hitem' n _ w hv hw)
  | object hnames hvalue ih =>
      cases hvw with
      | object hnames' hvalue' =>
          refine .object (fun name => (hnames name).trans (hnames' name))
            fun name u w hu hw => ?_
          have hsome := hnames name
          rw [hu] at hsome
          obtain ⟨v, hv⟩ := Option.isSome_iff_exists.mp hsome.symm
          exact ih name u v hu hv (hvalue' name v w hv hw)

/-- Sorting the members of a value makes no other value of it. -/
theorem same_normal (v : Json) : v.Same v.normal := by
  induction v using induction_mem with
  | null => exact .null
  | bool b => exact .bool b
  | number n => exact .number n
  | string s => exact .string s
  | array items ih =>
      rw [normal_array]
      refine .array (List.length_map _).symm fun n v w hv hw => ?_
      rw [List.getElem?_map, hv] at hw
      obtain rfl := Option.some.inj hw
      exact ih v (List.mem_of_getElem? hv)
  | object members ih =>
      rw [normal_eq_object]
      refine .object (fun name => ?_) fun name v w hv hw => ?_
      · rw [member?_normalMembers, Option.isSome_map]
      · rw [member?_normalMembers, hv] at hw
        obtain rfl := Option.some.inj hw
        exact ih _ (mem_of_member? hv)

/-- The normal form does not tell apart values that are the same. -/
theorem Same.normal_eq (h : v.Same w) : v.normal = w.normal := by
  induction h with
  | null => rfl
  | bool b => rfl
  | number n => rfl
  | string s => rfl
  | @array vs ws hlength _ ih =>
      rw [normal_array, normal_array]
      refine congrArg _
        (List.ext_getElem (by simpa using hlength) fun n hv hw => ?_)
      rw [List.length_map] at hv hw
      rw [List.getElem_map, List.getElem_map]
      exact ih n _ _ (List.getElem?_eq_getElem hv) (List.getElem?_eq_getElem hw)
  | @object ms ns hnames _ ih =>
      rw [normal_eq_object, normal_eq_object]
      refine congrArg _
        (InOrder.ext (inOrder_normalMembers ms) (inOrder_normalMembers ns)
          fun name => ?_)
      have hsome := hnames name
      rw [member?_normalMembers, member?_normalMembers]
      cases hv : member? name ms with
      | none =>
          have hw : member? name ns = none := by simpa [hv] using hsome.symm
          rw [hw]
      | some v =>
          rw [hv] at hsome
          obtain ⟨w, hw⟩ := Option.isSome_iff_exists.mp hsome.symm
          rw [hw]
          exact congrArg some (ih name v w hv hw)

/-- Values are the same exactly if they have the same normal form. -/
theorem normal_eq_iff_same (v w : Json) : v.normal = w.normal ↔ v.Same w := by
  constructor
  · intro h
    exact (same_normal v).trans (h ▸ (same_normal w).symm)
  · exact Same.normal_eq

end DidVault.Json
