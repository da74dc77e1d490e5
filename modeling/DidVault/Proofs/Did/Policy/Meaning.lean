import DidVault.Proofs.Did.Policy.Compose

/-!
# The meaning of a recovery policy

Anchors and other keys may be listed more than once, and in both lists.  A
policy can be composed of them as soon as there is an anchor and, among all that
are listed, a second reference.  It has one clause for each anchor, in the order
in which the anchors first occur (`Firsts`), and it is satisfied by the sets
that hold an anchor and two of all listed references
(`Policy.meaning_of_compose`).
-/

namespace DidVault

/-- The list has the members of the other one, each once and where it first
occurs there. -/
structure Firsts (firsts rs : List String) : Prop where
  mem : ∀ r, r ∈ firsts ↔ r ∈ rs
  order : firsts.Pairwise fun a b => rs.idxOf a < rs.idxOf b

namespace Policy

variable {anchors others present rs : List String} {policy : Policy}

/-- The distinct references stand in the order of their first occurrences. -/
theorem order_distinct (rs : List String) :
    (distinct rs).Pairwise fun a b => rs.idxOf a < rs.idxOf b := by
  induction rs with
  | nil => exact .nil
  | cons r rest ih =>
      have hlater : ∀ s ∈ (distinct rest).filter (· != r),
          (r :: rest).idxOf s = rest.idxOf s + 1 := by
        intro s hs
        have hne : s ≠ r := bne_iff_ne.mp (List.mem_filter.mp hs).2
        rw [List.idxOf_cons, beq_eq_false_iff_ne.mpr hne.symm, cond_false]
      rw [distinct, List.pairwise_cons]
      constructor
      · intro s hs
        rw [hlater s hs, List.idxOf_cons_self]
        exact Nat.succ_pos _
      · refine (ih.filter _).imp_of_mem fun ha hb hab => ?_
        rw [hlater _ ha, hlater _ hb]
        exact Nat.succ_lt_succ hab

/-- The distinct references are the first occurrences. -/
theorem firsts_distinct (rs : List String) : Firsts (distinct rs) rs where
  mem _ := mem_distinct
  order := order_distinct rs

/-- None of them is repeated. -/
theorem nodup_distinct (rs : List String) : (distinct rs).Nodup :=
  (order_distinct rs).imp fun hlt heq =>
    Nat.ne_of_lt hlt (congrArg rs.idxOf heq)

/-- There are two members without repetitions if some two members differ. -/
theorem two_le_length_distinct_iff :
    2 ≤ (distinct rs).length ↔ ∃ a ∈ rs, ∃ b ∈ rs, a ≠ b := by
  have hmem (r : String) : r ∈ rs ↔ r ∈ distinct rs := mem_distinct.symm
  simp only [hmem]
  have hnodup := nodup_distinct rs
  generalize distinct rs = firsts at hnodup
  constructor
  · intro hlength
    match firsts, hlength with
    | a :: b :: rest, _ =>
        refine ⟨a, List.mem_cons_self, b,
          List.mem_cons_of_mem _ List.mem_cons_self, ?_⟩
        rintro rfl
        exact (List.nodup_cons.mp hnodup).1 List.mem_cons_self
  · rintro ⟨a, ha, b, hb, hne⟩
    match firsts, ha, hb with
    | [c], ha, hb =>
        exact absurd
          ((List.mem_singleton.mp ha).trans (List.mem_singleton.mp hb).symm) hne
    | _ :: _ :: _, _, _ =>
        exact Nat.succ_le_succ (Nat.succ_le_succ (Nat.zero_le _))

/-- A policy is composed of an anchor and a second reference. -/
theorem exists_compose_iff :
    (∃ policy, compose anchors others = .ok policy) ↔
      anchors ≠ [] ∧
        ∃ a ∈ anchors ++ others, ∃ b ∈ anchors ++ others, a ≠ b := by
  rw [← two_le_length_distinct_iff]
  unfold compose
  dsimp only
  split
  · next hnone =>
      refine ⟨nofun, fun h => ?_⟩
      exact absurd (List.isEmpty_iff.mp hnone) h.1
  · next hsome =>
      split
      · next hfew => exact ⟨nofun, fun h => absurd h.2 (Nat.not_le.mpr hfew)⟩
      · next hmany =>
          refine ⟨fun _ =>
            ⟨fun h => hsome (List.isEmpty_iff.mpr h), Nat.not_lt.mp hmany⟩, ?_⟩
          exact fun _ => ⟨_, rfl⟩

/-- An anchor and another reference are an anchor among two references. -/
theorem anchored_iff :
    (∃ a ∈ anchors, a ∈ present ∧
        ∃ k ∈ anchors ++ others, k ≠ a ∧ k ∈ present) ↔
      (∃ a ∈ anchors, a ∈ present) ∧
        ∃ a ∈ anchors ++ others, ∃ b ∈ anchors ++ others,
          a ≠ b ∧ a ∈ present ∧ b ∈ present := by
  constructor
  · rintro ⟨a, ha, hpresent, k, hk, hne, hother⟩
    exact ⟨⟨a, ha, hpresent⟩, a, List.mem_append_left _ ha, k, hk, hne.symm,
      hpresent, hother⟩
  · rintro ⟨⟨a, ha, hpresent⟩, b, hb, c, hc, hne, hfirst, hsecond⟩
    -- one of two different references is not the anchor
    by_cases hsame : b = a
    · exact ⟨a, ha, hpresent, c, hc, fun h => hne (hsame.trans h.symm), hsecond⟩
    · exact ⟨a, ha, hpresent, b, hb, hsame, hfirst⟩

/-- A policy is composed exactly of lists with an anchor and two different
references in all.  It is satisfied by the sets that hold an anchor and two of
all the references, and it is a choice of one clause for each anchor: the anchor
together with any other reference. -/
theorem meaning_of_compose (anchors others : List String) :
    ((∃ policy, compose anchors others = .ok policy) ↔
        anchors ≠ [] ∧
          ∃ a ∈ anchors ++ others, ∃ b ∈ anchors ++ others, a ≠ b) ∧
      ∀ policy, compose anchors others = .ok policy →
        (∀ present, policy.satisfiedBy present = true ↔
          (∃ a ∈ anchors, a ∈ present) ∧
            ∃ a ∈ anchors ++ others, ∃ b ∈ anchors ++ others,
              a ≠ b ∧ a ∈ present ∧ b ∈ present) ∧
        ∃ firsts keys, Firsts firsts anchors ∧ Firsts keys (anchors ++ others) ∧
          policy = .any (firsts.map fun a =>
            .all [.key a, .any ((keys.filter (· != a)).map .key)]) := by
  refine ⟨exists_compose_iff, fun policy hpolicy => ⟨fun present => ?_, ?_⟩⟩
  · rw [satisfiedBy_compose hpolicy]
    exact anchored_iff
  · exact ⟨_, _, firsts_distinct anchors, firsts_distinct (anchors ++ others),
      compose_ok hpolicy⟩

/-- Where one reference is listed three times, in both lists, it takes a second
one beside it. -/
theorem meaning_of_repeated :
    ∃ policy, compose ["#a", "#b", "#a"] ["#a"] = .ok policy ∧
      ¬ policy.satisfiedBy ["#a"] = true ∧
      policy.satisfiedBy ["#b", "#c", "#a"] = true := by
  obtain ⟨hexists, hmeaning⟩ := meaning_of_compose ["#a", "#b", "#a"] ["#a"]
  obtain ⟨policy, hpolicy⟩ :=
    hexists.mpr ⟨nofun, "#a", by decide, "#b", by decide, by decide⟩
  obtain ⟨hsatisfied, -⟩ := hmeaning policy hpolicy
  refine ⟨policy, hpolicy, ?_, ?_⟩
  · rw [hsatisfied]
    decide
  · rw [hsatisfied]
    decide

/-- One reference, however often it is listed, is too little. -/
example : compose ["#a", "#a"] ["#a"] = .error (.tooFewKeys 1) := by rfl

end Policy

end DidVault
