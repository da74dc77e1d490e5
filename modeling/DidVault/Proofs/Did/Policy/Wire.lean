import DidVault.Did.Policy.Wire
import DidVault.Proofs.Json.Canonical

/-!
# Reading policies back

A policy in JSON has its type in front of its condition, and in normal form it
is the other way round.  Either way it is read as the policy
(`Policy.read_tokens`).
-/

namespace DidVault.Policy

open Json

/-- A condition comes before the type. -/
theorem normal_condition {name : String} (children : List Policy)
    (hname : utf16Before name "type" = true) :
    (object [("type", string KeyType.conditional.name),
        (name, array (listToJson children))]).normal =
      object [(name, array ((listToJson children).map normal)),
        ("type", string KeyType.conditional.name)] := by
  rw [← normal_array]
  refine normal_object (List.Perm.swap ..)
    (List.pairwise_cons.mpr ⟨fun m hm => ?_, ?_⟩)
  · obtain rfl := List.mem_singleton.mp hm
    exact hname
  · exact List.pairwise_singleton _ _

/-- The type that is written is accepted. -/
theorem isTypeOrNull_conditional :
    isTypeOrNull (string KeyType.conditional.name) = true := by
  decide

mutual

/-- An arranged policy writes the policy. -/
theorem wire?_arranged (a : Arrangement) (p : Policy) :
    ∃ w, wire? (a.of p.toJson) = some w ∧ w.policy = .ok p := by
  match p with
  | key r => exact ⟨.reference r, by cases a <;> rfl, rfl⟩
  | all children =>
      have hchildren := policies?_arranged a children
      refine ⟨.conditions (some children) none, ?_, rfl⟩
      cases a with
      | written =>
          rw [Arrangement.map_written] at hchildren
          simp [Arrangement.of, toJson, wire?, conditions?, condition?,
            allName, hchildren, isTypeOrNull_conditional, Conditions.wire]
      | normal =>
          have hnormal : policies? ((listToJson children).map Json.normal) =
              some children :=
            hchildren
          rw [toJson, Arrangement.of,
            normal_condition children (by decide), wire?]
          simp [conditions?, condition?, allName, hnormal,
            isTypeOrNull_conditional, Conditions.wire]
  | any children =>
      have hchildren := policies?_arranged a children
      refine ⟨.conditions none (some children), ?_, rfl⟩
      cases a with
      | written =>
          rw [Arrangement.map_written] at hchildren
          simp [Arrangement.of, toJson, wire?, conditions?, condition?, allName,
            anyName, hchildren, isTypeOrNull_conditional, Conditions.wire]
      | normal =>
          have hnormal : policies? ((listToJson children).map Json.normal) =
              some children :=
            hchildren
          rw [toJson, Arrangement.of,
            normal_condition children (by decide), wire?]
          simp [conditions?, condition?, allName, anyName, hnormal,
            isTypeOrNull_conditional, Conditions.wire]

/-- A list of policies is read in any arrangement. -/
theorem policies?_arranged (a : Arrangement) (children : List Policy) :
    policies? ((listToJson children).map a.of) = some children := by
  match children with
  | [] => rfl
  | child :: rest =>
      obtain ⟨w, hw, hchild⟩ := wire?_arranged a child
      have hrest := policies?_arranged a rest
      rw [listToJson, List.map_cons, policies?, hw, hrest]
      simp only [hchild]

end

/-- A policy is read in any arrangement as the policy that was written. -/
theorem ofJson_arranged (a : Arrangement) (p : Policy) :
    ofJson (a.of p.toJson) = .ok p := by
  obtain ⟨w, hw, hp⟩ := wire?_arranged a p
  simp only [ofJson, hw, hp]

mutual

/-- A written policy holds no number that is not exact. -/
theorem exact_toJson (p : Policy) : p.toJson.Exact := by
  match p with
  | key r => trivial
  | all children => exact ⟨trivial, exact_listToJson children, trivial⟩
  | any children => exact ⟨trivial, exact_listToJson children, trivial⟩

/-- Written policies hold no number that is not exact. -/
theorem exact_listToJson (children : List Policy) :
    ExactItems (listToJson children) := by
  match children with
  | [] => trivial
  | child :: rest => exact ⟨exact_toJson child, exact_listToJson rest⟩

end

theorem listToJson_eq (children : List Policy) :
    listToJson children = children.map toJson := by
  induction children with
  | nil => rfl
  | cons child rest ih => rw [listToJson, ih, List.map_cons]

/-- A policy is read back from its tokens. -/
theorem read_tokens (a : Arrangement) (p : Policy) (limit : Nat)
    (rest : List Token) (hdepth : p.toJson.depth ≤ limit) :
    read limit ((a.of p.toJson).tokens ++ rest) = .ok (p, rest) := by
  have hvalue := value_tokens (a.of p.toJson) limit rest (a.depth_of_le hdepth)
  rw [read, hvalue]
  show (ofJson (a.of p.toJson) >>= fun policy => pure (policy, rest)) = _
  rw [ofJson_arranged]
  rfl

end DidVault.Policy
