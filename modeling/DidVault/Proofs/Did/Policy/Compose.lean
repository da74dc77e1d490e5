import DidVault.Did.Recovery
import DidVault.Proofs.Did.Policy.Wire

/-!
# What recovery policies ask for

The policy over anchors and other keys is satisfied by exactly those sets of
references that hold an anchor and another key (`satisfiedBy_compose`), however
often a reference was listed.
-/

namespace DidVault.Policy

variable {anchors others present rs : List String} {policies : List Policy}
  {policy : Policy}

/-- Dropping repetitions drops no reference. -/
@[simp] theorem mem_distinct {r : String} : r ∈ distinct rs ↔ r ∈ rs := by
  induction rs with
  | nil => rfl
  | cons s rest ih =>
      rw [distinct, List.mem_cons, List.mem_filter, ih, List.mem_cons]
      by_cases h : r = s
      · simp [h]
      · simp [h]

/-- The references of several policies are those of each. -/
theorem mem_listReferences {r : String} :
    r ∈ listReferences policies ↔ ∃ p ∈ policies, r ∈ p.references := by
  induction policies with
  | nil => simp [listReferences]
  | cons p rest ih =>
      rw [listReferences, List.mem_append, ih]
      simp only [List.mem_cons, exists_eq_or_imp]

/-- Any of several policies is satisfied if one of them is. -/
theorem anySatisfied_iff :
    anySatisfied present policies = true ↔ ∃ p ∈ policies,
      p.satisfiedBy present = true := by
  induction policies with
  | nil => simp [anySatisfied]
  | cons p rest ih =>
      rw [anySatisfied, Bool.or_eq_true, ih]
      simp only [List.mem_cons, exists_eq_or_imp]

/-- The clause of an anchor asks for it and for any other key. -/
theorem satisfiedBy_clause {keys : List String} {anchor : String} :
    (clause keys anchor).satisfiedBy present = true ↔
      anchor ∈ present ∧ ∃ k ∈ keys, k ≠ anchor ∧ k ∈ present := by
  have hother :
      anySatisfied present ((keys.filter (· != anchor)).map key) = true ↔
      ∃ k ∈ keys, k ≠ anchor ∧ k ∈ present := by
    rw [anySatisfied_iff]
    constructor
    · rintro ⟨p, hp, hsatisfied⟩
      obtain ⟨k, hk, rfl⟩ := List.mem_map.mp hp
      obtain ⟨hkeys, hne⟩ := List.mem_filter.mp hk
      rw [satisfiedBy] at hsatisfied
      exact ⟨k, hkeys, bne_iff_ne.mp hne, List.contains_iff_mem.mp hsatisfied⟩
    · rintro ⟨k, hkeys, hne, hpresent⟩
      refine ⟨key k,
        List.mem_map_of_mem (List.mem_filter.mpr ⟨hkeys, bne_iff_ne.mpr hne⟩),
        ?_⟩
      rw [satisfiedBy]
      exact List.contains_iff_mem.mpr hpresent
  rw [clause, satisfiedBy, allSatisfied, allSatisfied, allSatisfied,
    satisfiedBy, satisfiedBy, Bool.and_true, Bool.and_eq_true, hother,
    List.contains_iff_mem]

/-- A policy that is composed is a choice of one clause for each anchor. -/
theorem compose_ok (hpolicy : compose anchors others = .ok policy) :
    policy = any
      ((distinct anchors).map (clause (distinct (anchors ++ others)))) := by
  unfold compose at hpolicy
  dsimp only at hpolicy
  split at hpolicy
  · cases hpolicy
  · split at hpolicy
    · cases hpolicy
    · exact (Except.ok.inj hpolicy).symm

/-- A policy is satisfied by an anchor together with any other key. -/
theorem satisfiedBy_compose (hpolicy : compose anchors others = .ok policy)
    (present : List String) :
    policy.satisfiedBy present = true ↔
      ∃ a ∈ anchors, a ∈ present ∧
        ∃ k ∈ anchors ++ others, k ≠ a ∧ k ∈ present := by
  rw [compose_ok hpolicy, satisfiedBy, anySatisfied_iff]
  constructor
  · rintro ⟨p, hp, hsatisfied⟩
    obtain ⟨a, ha, rfl⟩ := List.mem_map.mp hp
    obtain ⟨hpresent, k, hk, hrest⟩ := satisfiedBy_clause.mp hsatisfied
    exact ⟨a, mem_distinct.mp ha, hpresent, k, mem_distinct.mp hk, hrest⟩
  · rintro ⟨a, ha, hpresent, k, hk, hrest⟩
    refine ⟨_, List.mem_map_of_mem (mem_distinct.mpr ha),
      satisfiedBy_clause.mpr ?_⟩
    exact ⟨hpresent, k, mem_distinct.mpr hk, hrest⟩

/-- Several policies are no deeper than the deepest of them. -/
theorem itemsDepth_listToJson_le {n : Nat}
    (hdepth : ∀ p ∈ policies, p.toJson.depth ≤ n) :
    Json.itemsDepth (listToJson policies) ≤ n := by
  rw [listToJson_eq]
  refine Json.itemsDepth_le_iff.mpr fun v hv => ?_
  obtain ⟨p, hp, rfl⟩ := List.mem_map.mp hv
  exact hdepth p hp

/-- A condition is a list in an object. -/
theorem depth_condition_le {n : Nat} (name : String)
    (hdepth : ∀ p ∈ policies, p.toJson.depth ≤ n) :
    (Json.object [("type", .string KeyType.conditional.name),
      (name, .array (listToJson policies))]).depth ≤ n + 2 := by
  have hitems := itemsDepth_listToJson_le hdepth
  simp only [Json.depth, Json.membersDepth]
  omega

/-- The clause of an anchor has a choice of keys inside it. -/
theorem depth_clause_le (keys : List String) (anchor : String) :
    (clause keys anchor).toJson.depth ≤ 4 := by
  have hkey : ∀ r : String, (key r).toJson.depth = 0 := fun _ => rfl
  have hchoice :
      (any ((keys.filter (· != anchor)).map key)).toJson.depth ≤ 2 := by
    rw [toJson]
    refine depth_condition_le anyName fun p hp => ?_
    obtain ⟨k, -, rfl⟩ := List.mem_map.mp hp
    exact Nat.le_of_eq (hkey k)
  rw [clause, toJson]
  refine depth_condition_le allName fun p hp => ?_
  rcases List.mem_cons.mp hp with rfl | hp
  · rw [hkey]
    exact Nat.zero_le _
  · rw [List.mem_singleton.mp hp]
    exact hchoice

end DidVault.Policy
