import DidVault.Proofs.Did.Document.RoundTrip
import DidVault.Proofs.Did.Policy.Compose
import DidVault.Proofs.Json.NormalForm

/-!
# The grammar of policies in JSON

A value is a policy if it is a reference, or an object with exactly one
condition whose items are policies themselves (`Policy.Readable`).  What the
sets are that satisfy it can be read off the value (`Policy.Holds`).  Readers
take exactly these values, and the policy that they make of one is satisfied by
the same sets (`Policy.reads_grammar`).

This is true of values that name no member twice and write every policy as a
text or an object.
-/

namespace DidVault.Policy

open Json

/-- The two conditions that a policy can have. -/
inductive Condition where
  | all
  | any
  deriving DecidableEq

namespace Condition

/-- The name of a condition in JSON. -/
def name : Condition → String
  | all => allName
  | any => anyName

/-- The condition that may not stand beside this one. -/
def other : Condition → Condition
  | all => any
  | any => all

/-- The policy with a condition. -/
def policy : Condition → List Policy → Policy
  | all => .all
  | any => .any

end Condition

/-- A member is not there, or null. -/
def Absent (member : Option Json) : Prop :=
  member = none ∨ member = some .null

/-- A type of key is written as its name, or as an object whose only member is
null under that name. -/
def WritesType (t : Json) : Prop :=
  ∃ keyType : KeyType, t = .string keyType.name ∨
    t = .object [(keyType.name, .null)]

/-- A policy in JSON: a text, or an object with one condition, whose items are
policies. -/
inductive Readable : Json → Prop where
  | key (r : String) : Readable (.string r)
  | condition {members : List (String × Json)} (kind : Condition)
      (items : List Json)
      (hkind : member? kind.name members = some (.array items))
      (hother : Absent (member? kind.other.name members))
      (htype : ∀ t ∈ member? "type" members, t = .null ∨ WritesType t)
      (hitems : ∀ item ∈ items, Readable item) :
      Readable (.object members)

/-- What a policy in JSON says of a set of references. -/
inductive Holds (present : List String) : Json → Prop where
  | key {r : String} (hr : r ∈ present) : Holds present (.string r)
  | all {members : List (String × Json)} {items : List Json}
      (hkind : member? Condition.all.name members = some (.array items))
      (hitems : ∀ item ∈ items, Holds present item) :
      Holds present (.object members)
  | any {members : List (String × Json)} {items : List Json} {item : Json}
      (hkind : member? Condition.any.name members = some (.array items))
      (hmem : item ∈ items) (hitem : Holds present item) :
      Holds present (.object members)

/-- A value in the place of a policy: the whole one, or an item of a condition
of such a value. -/
inductive Place (v : Json) : Json → Prop where
  | self : Place v v
  | item {w : Json} {members : List (String × Json)} {items : List Json}
      (kind : Condition)
      (hkind : member? kind.name members = some (.array items))
      (hmem : w ∈ items)
      (hplace : Place v w) : Place v (.object members)

/-- No object in the value names a member twice, and no policy in it is written
as an array. -/
structure Plain (v : Json) : Prop where
  distinct : ∀ members, Part (.object members) v → (members.map Prod.fst).Nodup
  noArray : ∀ items, ¬ Place (.array items) v

variable {members : List (String × Json)} {items : List Json}
  {children : List Policy}
variable {present : List String} {policy : Policy} {v : Json}

/-- The places in an object are the object itself and those in the items of its
conditions. -/
theorem place_object_iff :
    Place v (.object members) ↔
      v = .object members ∨
        ∃ items, (member? allName members = some (.array items) ∨
          member? anyName members = some (.array items)) ∧
          ∃ w ∈ items, Place v w := by
  constructor
  · rintro (_ | ⟨kind, hkind, hmem, hplace⟩)
    · exact .inl rfl
    · cases kind with
      | all => exact .inr ⟨_, .inl hkind, _, hmem, hplace⟩
      | any => exact .inr ⟨_, .inr hkind, _, hmem, hplace⟩
  · rintro (rfl | ⟨items, hkind | hkind, w, hmem, hplace⟩)
    · exact .self
    · exact .item .all hkind hmem hplace
    · exact .item .any hkind hmem hplace

/-- A type is accepted if it is `null` or written as it has to be. -/
theorem isTypeOrNull_iff {t : Json} :
    isTypeOrNull t = true ↔ t = .null ∨ WritesType t := by
  have hname : ∀ s : String, (KeyType.ofName? s).isSome = true ↔ ∃ k : KeyType,
      s = k.name := by
    intro s
    rw [KeyType.ofName?, List.find?_isSome]
    constructor
    · rintro ⟨k, -, hk⟩
      exact ⟨k, (beq_iff_eq.mp hk).symm⟩
    · rintro ⟨k, rfl⟩
      exact ⟨k, by cases k <;> decide, beq_self_eq_true _⟩
  unfold isTypeOrNull WritesType
  split
  · simp
  · next s => simp [hname]
  · next s => simp [hname]
  · next hnull hstring hobject =>
      refine iff_of_false nofun ?_
      rintro (rfl | ⟨k, rfl | rfl⟩)
      · exact hnull rfl
      · exact hstring _ rfl
      · exact hobject _ rfl

/-- A list of policies is read if each of its items is. -/
theorem policies?_iff :
    policies? items = some children ↔
      List.Forall₂ (fun item child => ofJson item = .ok child) items
        children := by
  induction items generalizing children with
  | nil => cases children <;> simp [policies?]
  | cons item rest ih =>
      have hitem : ∀ child, ofJson item = .ok child ↔
          ∃ w, wire? item = some w ∧ w.policy = .ok child := by
        intro child
        unfold ofJson
        cases wire? item <;> simp
      rw [policies?]
      cases children with
      | nil =>
          refine iff_of_false (fun h => ?_) nofun
          split at h
          · split at h <;> cases h
          · cases h
      | cons child others =>
          rw [List.forall₂_cons, ← ih, hitem]
          cases wire? item with
          | none => simp
          | some w =>
              cases policies? rest with
              | none => simp
              | some cs => cases hw : w.policy <;> simp [hw]

/-- A condition is absent, `null`, or a list of policies. -/
theorem condition?_iff {parts : Option (List Policy)} :
    condition? v = some parts ↔ (v = .null ∧ parts = none) ∨
      ∃ items children, v = .array items ∧ parts = some children ∧
        policies? items = some children := by
  unfold condition?
  cases v with
  | array items =>
      rw [Option.map_eq_some_iff]
      constructor
      · rintro ⟨children, hread, rfl⟩
        exact .inr ⟨items, children, rfl, rfl, hread⟩
      · rintro (⟨h, -⟩ | ⟨_, children, h, rfl, hread⟩)
        · cases h
        · cases h
          exact ⟨children, hread, rfl⟩
  | _ => simp [eq_comm]

/-- How a condition is read from the member of its name. -/
def Takes (before after : Option (Option (List Policy))) : Option Json → Prop
  | none => after = before
  | some v =>
      before = none ∧ ∃ parts, condition? v = some parts ∧ after = some parts

/-- Where names are not repeated, every member is read from the blank record. -/
theorem conditions?_iff {c c' : Conditions}
    (hnodup : (members.map Prod.fst).Nodup) :
    conditions? c members = some c' ↔
      (∀ t ∈ member? "type" members, c.typeSeen = false ∧
        isTypeOrNull t = true) ∧
        c'.typeSeen = (c.typeSeen || (member? "type" members).isSome) ∧
        Takes c.all c'.all (member? allName members) ∧
        Takes c.any c'.any (member? anyName members) := by
  induction members generalizing c with
  | nil =>
      obtain ⟨typeSeen, all, any⟩ := c
      obtain ⟨typeSeen', all', any'⟩ := c'
      have hnothing : ∀ name, member? name [] = none := fun _ => rfl
      rw [conditions?, Option.some.injEq, Conditions.mk.injEq]
      simp only [hnothing, Takes, Option.isSome_none, Bool.or_false]
      constructor
      · rintro ⟨rfl, rfl, rfl⟩
        exact ⟨nofun, rfl, rfl, rfl⟩
      · rintro ⟨-, rfl, rfl, rfl⟩
        exact ⟨rfl, rfl, rfl⟩
  | cons m rest ih =>
      have hrest : (rest.map Prod.fst).Nodup := (List.nodup_cons.mp hnodup).2
      obtain ⟨hnone, hself⟩ := member?_self hnodup
      obtain ⟨name, value⟩ := m
      rw [conditions?]
      by_cases htype : name = "type"
      · subst htype
        have hall : member? allName (("type", value) :: rest) =
            member? allName rest :=
          member?_of_ne (show "type" ≠ allName by decide)
        have hany : member? anyName (("type", value) :: rest) =
            member? anyName rest :=
          member?_of_ne (show "type" ≠ anyName by decide)
        rw [if_pos rfl, hself, hall, hany]
        cases hseen : c.typeSeen <;> cases hread : isTypeOrNull value <;>
          simp [ih hrest, hnone, hread]
      · rw [if_neg htype, member?_of_ne (m := (name, value)) htype]
        by_cases hall : name = allName
        · subst hall
          have hany : member? anyName ((allName, value) :: rest) =
              member? anyName rest :=
            member?_of_ne (show allName ≠ anyName by decide)
          rw [if_pos rfl, hself, hany]
          cases hbefore : c.all <;> cases hread : condition? value <;>
            simp [ih hrest, hnone, hread, Takes]
        · rw [if_neg hall, member?_of_ne (m := (name, value)) hall]
          by_cases hany : name = anyName
          · subst hany
            rw [if_pos rfl, hself]
            cases hbefore : c.any <;> cases hread : condition? value <;>
              simp [ih hrest, hnone, hread, Takes]
          · rw [if_neg hany, member?_of_ne (m := (name, value)) hany, ih hrest]

section Takes

variable {member : Option Json}

/-- Nothing is read of a condition that is not there. -/
theorem takes_none_iff :
    (∃ after, Takes none after member ∧ after.getD none = none) ↔
      Absent member := by
  cases member with
  | none => exact ⟨fun _ => .inl rfl, fun _ => ⟨none, rfl, rfl⟩⟩
  | some v =>
      constructor
      · rintro ⟨after, ⟨-, parts, hread, rfl⟩, hparts⟩
        rcases condition?_iff.mp hread with
          ⟨rfl, -⟩ | ⟨items, children, -, rfl, -⟩
        · exact .inr rfl
        · cases hparts
      · rintro (h | h)
        · cases h
        · cases h
          exact ⟨some none, ⟨rfl, none, rfl, rfl⟩, rfl⟩

/-- What is read of a condition are the policies of its items. -/
theorem takes_some_iff :
    (∃ after, Takes none after member ∧ after.getD none = some children) ↔
      ∃ items, member = some (.array items) ∧
        List.Forall₂ (fun item child => ofJson item = .ok child) items
          children := by
  simp only [← policies?_iff]
  constructor
  · rintro ⟨after, htakes, hparts⟩
    cases member with
    | none =>
        obtain rfl : after = none := htakes
        cases hparts
    | some v =>
        obtain ⟨-, parts, hread, rfl⟩ := htakes
        obtain rfl : parts = some children := hparts
        rcases condition?_iff.mp hread with ⟨-, h⟩ | ⟨items, _, rfl, h, hitems⟩
        · cases h
        · cases h
          exact ⟨items, rfl, hitems⟩
  · rintro ⟨items, rfl, hitems⟩
    have hread := condition?_iff.mpr (.inr ⟨items, children, rfl, rfl, hitems⟩)
    exact ⟨some (some children), ⟨rfl, _, hread, rfl⟩, rfl⟩

end Takes

/-- Exactly one of the two conditions makes a policy. -/
theorem policy_conditions_iff {all any : Option (List Policy)} :
    (Wire.conditions all any).policy = .ok policy ↔
      (∃ children, all = some children ∧ any = none ∧ policy = .all children) ∨
        ∃ children, any = some children ∧ all = none ∧
        policy = .any children := by
  cases all <;> cases any <;> simp [Wire.policy, eq_comm]

/-- An object is read as a policy if exactly one condition is there, whose items
are read as policies. -/
theorem ofJson_object_iff (hnodup : (members.map Prod.fst).Nodup) :
    ofJson (.object members) = .ok policy ↔
      (∀ t ∈ member? "type" members, t = .null ∨ WritesType t) ∧
        ∃ (kind : Condition) (items : List Json) (children : List Policy),
          member? kind.name members = some (.array items) ∧
          Absent (member? kind.other.name members) ∧
          List.Forall₂ (fun item child => ofJson item = .ok child)
            items children ∧
          policy = kind.policy children := by
  have hread : ofJson (.object members) = .ok policy ↔
      ∃ c, conditions? {} members = some c ∧ c.wire.policy = .ok policy := by
    rw [ofJson, wire?]
    cases conditions? {} members <;> simp
  simp only [hread, conditions?_iff hnodup, isTypeOrNull_iff, true_and]
  constructor
  · rintro ⟨c, ⟨htype, -, hall, hany⟩, hpolicy⟩
    refine ⟨htype, ?_⟩
    rcases policy_conditions_iff.mp hpolicy with ⟨children, hsome, hnone, rfl⟩ |
      ⟨children, hsome, hnone, rfl⟩
    · obtain ⟨items, hmember, hitems⟩ := takes_some_iff.mp ⟨c.all, hall, hsome⟩
      have habsent := takes_none_iff.mp ⟨c.any, hany, hnone⟩
      exact ⟨.all, items, children, hmember, habsent, hitems, rfl⟩
    · obtain ⟨items, hmember, hitems⟩ := takes_some_iff.mp ⟨c.any, hany, hsome⟩
      have habsent := takes_none_iff.mp ⟨c.all, hall, hnone⟩
      exact ⟨.any, items, children, hmember, habsent, hitems, rfl⟩
  · rintro ⟨htype, kind, items, children, hmember, habsent, hitems, rfl⟩
    obtain ⟨given, hgiven, hsome⟩ := takes_some_iff.mpr ⟨items, hmember, hitems⟩
    obtain ⟨nothing, hnothing, hnone⟩ := takes_none_iff.mpr habsent
    cases kind with
    | all =>
        refine ⟨⟨_, given, nothing⟩, ⟨htype, rfl, hgiven, hnothing⟩, ?_⟩
        exact policy_conditions_iff.mpr (.inl ⟨children, hsome, hnone, rfl⟩)
    | any =>
        refine ⟨⟨_, nothing, given⟩, ⟨htype, rfl, hnothing, hgiven⟩, ?_⟩
        exact policy_conditions_iff.mpr (.inr ⟨children, hsome, hnone, rfl⟩)

/-- An item of a plain policy is plain. -/
theorem Plain.item {item : Json} (h : Plain (.object members))
    (kind : Condition) (hkind : member? kind.name members = some (.array items))
    (hmem : item ∈ items) : Plain item where
  distinct _ hpart :=
    h.distinct _ (.member (.item hpart hmem) (mem_of_member? hkind))
  noArray _ hplace := h.noArray _ (.item kind hkind hmem hplace)

/-- What is read as a policy is a text or an object, unless it is an array. -/
theorem ofJson_cases (hplain : Plain v) (hread : ofJson v = .ok policy) :
    (∃ r, v = .string r ∧ policy = .key r) ∨
      ∃ members, v = .object members ∧ (members.map Prod.fst).Nodup := by
  cases v with
  | string r => exact .inl ⟨r, rfl, (Except.ok.inj hread).symm⟩
  | array items => exact absurd .self (hplain.noArray items)
  | object members => exact .inr ⟨members, rfl, hplain.distinct members .self⟩
  | _ => cases hread

/-- A set satisfies an object by one of its conditions. -/
theorem member_of_holds (hholds : Holds present (.object members)) :
    (∃ items, member? Condition.all.name members = some (.array items) ∧
        ∀ item ∈ items, Holds present item) ∨
      ∃ items, member? Condition.any.name members = some (.array items) ∧
        ∃ item ∈ items, Holds present item := by
  cases hholds with
  | all hkind hitems => exact .inl ⟨_, hkind, hitems⟩
  | any hkind hmem hitem => exact .inr ⟨_, hkind, _, hmem, hitem⟩

/-- A condition with its items is not absent. -/
theorem not_absent {member : Option Json} (habsent : Absent member) :
    member ≠ some (.array items) := by
  rintro rfl
  rcases habsent with h | h <;> cases h

/-- An object with the first condition says what all its items say. -/
theorem holds_all_iff
    (hall : member? Condition.all.name members = some (.array items))
    (hany : Absent (member? Condition.any.name members)) :
    Holds present (.object members) ↔ ∀ item ∈ items, Holds present item := by
  refine ⟨fun h => ?_, .all hall⟩
  rcases member_of_holds h with ⟨given, hgiven, hitems⟩ | ⟨given, hgiven, -⟩
  · rw [hall] at hgiven
    cases hgiven
    exact hitems
  · exact absurd hgiven (not_absent hany)

/-- An object with the second condition says what some of its items says. -/
theorem holds_any_iff
    (hany : member? Condition.any.name members = some (.array items))
    (hall : Absent (member? Condition.all.name members)) :
    Holds present (.object members) ↔ ∃ item ∈ items, Holds present item := by
  refine ⟨fun h => ?_, fun ⟨item, hmem, hitem⟩ => .any hany hmem hitem⟩
  rcases member_of_holds h with ⟨given, hgiven, -⟩ | ⟨given, hgiven, hitems⟩
  · exact absurd hgiven (not_absent hall)
  · rw [hany] at hgiven
    cases hgiven
    exact hitems

mutual

/-- What is read as a policy is one in JSON, and what is made of it is satisfied
by the same sets. -/
theorem readable_of_ofJson (policy : Policy) {v : Json} (hplain : Plain v)
    (hread : ofJson v = .ok policy) :
    Readable v ∧ ∀ present, policy.satisfiedBy present = true ↔
      Holds present v := by
  rcases ofJson_cases hplain hread with ⟨r, rfl, rfl⟩ | ⟨members, rfl, hnodup⟩
  · refine ⟨.key r, fun present => ?_⟩
    rw [satisfiedBy, List.contains_iff_mem]
    exact ⟨.key, fun | .key hr => hr⟩
  · obtain ⟨htype, kind, items, children, hkind, hother, hitems, hpolicy⟩ :=
      (ofJson_object_iff hnodup).mp hread
    have hplain' : ∀ item ∈ items, Plain item :=
      fun item => hplain.item kind hkind
    match policy, kind with
    | .key r, .all | .key r, .any => cases hpolicy
    | .all parts, .all =>
        rw [← show parts = children from Policy.all.inj hpolicy] at hitems
        obtain ⟨hreadable, hsame⟩ := readable_of_policies parts hplain' hitems
        refine ⟨.condition .all items hkind hother htype hreadable,
          fun present => ?_⟩
        rw [satisfiedBy, (hsame present).1, holds_all_iff hkind hother]
    | .any parts, .any =>
        rw [← show parts = children from Policy.any.inj hpolicy] at hitems
        obtain ⟨hreadable, hsame⟩ := readable_of_policies parts hplain' hitems
        refine ⟨.condition .any items hkind hother htype hreadable,
          fun present => ?_⟩
        rw [satisfiedBy, (hsame present).2, holds_any_iff hkind hother]
    | .all parts, .any | .any parts, .all => cases hpolicy

/-- The same of a list of values. -/
theorem readable_of_policies (children : List Policy) {items : List Json}
    (hplain : ∀ item ∈ items, Plain item)
    (hread : List.Forall₂ (fun item child => ofJson item = .ok child) items
      children) :
    (∀ item ∈ items, Readable item) ∧ ∀ present,
      (allSatisfied present children = true ↔ ∀ item ∈ items,
        Holds present item) ∧
      (anySatisfied present children = true ↔ ∃ item ∈ items,
        Holds present item) := by
  match items, children, hread with
  | [], [], .nil =>
      exact ⟨nofun, fun present => by simp [allSatisfied, anySatisfied]⟩
  | item :: rest, child :: others, .cons hchild hothers =>
      obtain ⟨hitem, hrest⟩ := List.forall_mem_cons.mp hplain
      obtain ⟨hreadable, hsame⟩ := readable_of_ofJson child hitem hchild
      obtain ⟨hreadables, hsames⟩ := readable_of_policies others hrest hothers
      refine ⟨List.forall_mem_cons.mpr ⟨hreadable, hreadables⟩,
        fun present => ?_⟩
      rw [allSatisfied, anySatisfied, Bool.and_eq_true, Bool.or_eq_true, hsame,
        (hsames present).1, (hsames present).2]
      simp

end

/-- Whatever is a policy in JSON is read. -/
theorem exists_ofJson_of_readable (hplain : Plain v) (hreadable : Readable v) :
    ∃ policy, ofJson v = .ok policy := by
  induction hreadable with
  | key r => exact ⟨.key r, rfl⟩
  | @condition members kind items hkind hother htype _ ih =>
      have hread : ∀ item ∈ items, ∃ policy, ofJson item = .ok policy :=
        fun item hmem => ih item hmem (hplain.item kind hkind hmem)
      choose! child hchild using hread
      have hchildren :
          List.Forall₂ (fun item child => ofJson item = .ok child) items
            (items.map child) :=
              List.forall₂_map_right_iff.mpr (List.forall₂_same.mpr hchild)
      exact ⟨kind.policy (items.map child),
        (ofJson_object_iff (hplain.distinct members .self)).mpr
          ⟨htype, kind, items, _, hkind, hother, hchildren, rfl⟩⟩

/-- A text is read as the policy of the value that it writes. -/
theorem readAll_read {bytes : Bytes} (hparse : parse bytes = .ok v) :
    readAll (read maxDepth) bytes = ofJson v := by
  rw [parse, readAll] at hparse
  rw [readAll, read]
  split at hparse
  · cases hparse
  · next value hvalue =>
      cases hparse
      rw [hvalue]
      cases hread : ofJson v <;>
        simp [bind, Except.bind, hread, pure, Except.pure]
  · cases hparse

/-- A policy that is not nested too deep is read back from its canonical
bytes. -/
theorem readAll_canonicalBytes (policy : Policy)
    (hdepth : policy.toJson.depth ≤ maxDepth) :
    readAll (read maxDepth) policy.toJson.canonicalBytes = .ok policy := by
  have hread := read_tokens .normal policy maxDepth [] hdepth
  rw [List.append_nil] at hread
  exact Json.readAll_canonicalBytes policy.exact_toJson hread

/-- Exactly the policies in JSON are read as policies, as values and from texts.
The policy that is made of one is satisfied by the sets that satisfy it as it is
written, and what is written of the policy is read as the policy again. -/
theorem reads_grammar (v : Json) (hplain : Plain v) :
    ((∃ policy, ofJson v = .ok policy) ↔ Readable v) ∧
      (∀ bytes, parse bytes = .ok v →
        readAll (read maxDepth) bytes = ofJson v) ∧
      ∀ policy, ofJson v = .ok policy →
        (∀ present, policy.satisfiedBy present = true ↔ Holds present v) ∧
        ofJson policy.toJson = .ok policy ∧
        (v.depth ≤ maxDepth →
          readAll (read maxDepth) policy.toJson.canonicalBytes =
            .ok policy) := by
  refine ⟨⟨?_, exists_ofJson_of_readable hplain⟩, fun _ => readAll_read, ?_⟩
  · rintro ⟨policy, hread⟩
    exact (readable_of_ofJson policy hplain hread).1
  · intro policy hread
    refine ⟨(readable_of_ofJson policy hplain hread).2,
      ofJson_arranged .written policy, ?_⟩
    intro hdepth
    exact readAll_canonicalBytes policy
      (Nat.le_trans (depth_ofJson_le hread) hdepth)

/-- A policy with another member beside its condition, and another condition
that is null inside it. -/
def annotated : Json :=
  .object [("note", .null), ("type", .object [(KeyType.rsa.name, .null)]),
    (anyName, .array
      [.object [(allName, .array [.string "#A", .string "#B"]),
        (anyName, .null)], .string "#C"])]

/-- No condition stands in the innermost object. -/
def hollow : Json :=
  .object
    [(allName, .array [.string "#A", .object [(anyName, .array [.object []])]])]

/-- Both values name no member twice and write no policy as an array. -/
theorem plain_annotated_hollow : Plain annotated ∧ Plain hollow := by
  have hstring : ∀ s members, ¬ Part (.object members) (.string s) := nofun
  have hnull : ∀ members, ¬ Part (.object members) .null := nofun
  have hplace : ∀ s items, ¬ Place (.array items) (.string s) := nofun
  refine ⟨⟨fun members hpart => ?_, fun items hitems => ?_⟩,
    fun members hpart => ?_, fun items hitems => ?_⟩
  · simp [annotated, part_object_iff, part_array_iff, hstring, hnull] at hpart
    rcases hpart with rfl | rfl | rfl <;> decide
  · simp [annotated, place_object_iff, member?, allName, anyName, hplace]
      at hitems
  · simp [hollow, part_object_iff, part_array_iff, hstring] at hpart
    rcases hpart with rfl | rfl | rfl <;> decide
  · simp [hollow, place_object_iff, member?, allName, anyName, hplace] at hitems

/-- The grammar accepts a policy with other members besides, and refuses one
without conditions. -/
theorem reads_grammar_of_annotated :
    Plain annotated ∧ Readable annotated ∧ Holds ["#A", "#B"] annotated ∧
      ¬ Holds ["#A"] annotated ∧ Plain hollow ∧ ¬ Readable hollow := by
  obtain ⟨hannotated, hhollow⟩ := plain_annotated_hollow
  obtain ⟨hread, -, hmeaning⟩ := reads_grammar annotated hannotated
  let policy : Policy := .any [.all [.key "#A", .key "#B"], .key "#C"]
  have hpolicy : ofJson annotated = .ok policy := rfl
  obtain ⟨hsame, -⟩ := hmeaning policy hpolicy
  refine ⟨hannotated, hread.mp ⟨policy, hpolicy⟩, (hsame _).mp (by decide), ?_,
    hhollow, ?_⟩
  · intro hholds
    exact absurd ((hsame _).mpr hholds) (by decide)
  · intro hreadable
    obtain ⟨p, hp⟩ := (reads_grammar hollow hhollow).1.mpr hreadable
    have hnone : ofJson hollow = .error (.noShape "WireNode") := rfl
    rw [hnone] at hp
    cases hp

end DidVault.Policy
