import DidVault.Proofs.Json.Reading
import DidVault.Proofs.Json.Sorting

/-!
# Reading canonical bytes

Sorting the members of a value keeps it exact and does not nest it deeper.  So
the canonical bytes of a value are read back to its normal form
(`parse_canonicalBytes`).

Records are read back from their members as they are written and from their
members in order.  An `Arrangement` is one of the two, so that a statement can
be made of both.
-/

namespace DidVault.Json

/-- Inserting an exact member among exact members keeps all of them exact. -/
theorem exactMembers_insertMember {before : String → String → Bool}
    {name : String} {value : Json} {done : List (String × Json)}
    (hvalue : value.Exact) (hdone : ExactMembers done) :
    ExactMembers (insertMember before name value done) := by
  induction done with
  | nil => exact ⟨hvalue, trivial⟩
  | cons m rest ih =>
      obtain ⟨other, kept⟩ := m
      rw [insertMember]
      split
      · exact ⟨hvalue, hdone.2⟩
      · split
        · exact ⟨hvalue, hdone⟩
        · exact ⟨hdone.1, ih hdone.2⟩

/-- Inserting a member makes the object no deeper than the two were. -/
theorem membersDepth_insertMember_le {before : String → String → Bool}
    {name : String} {value : Json} {done : List (String × Json)} {limit : Nat}
    (hvalue : value.depth ≤ limit) (hdone : membersDepth done ≤ limit) :
    membersDepth (insertMember before name value done) ≤ limit := by
  induction done with
  | nil =>
      rw [insertMember, membersDepth, membersDepth]
      omega
  | cons m rest ih =>
      obtain ⟨other, kept⟩ := m
      rw [membersDepth] at hdone
      have hrest := ih (by omega)
      rw [insertMember]
      split
      · rw [membersDepth]
        omega
      · split
        · rw [membersDepth, membersDepth]
          omega
        · rw [membersDepth]
          omega

variable {before : String → String → Bool}

mutual

/-- Sorting changes no number. -/
theorem exact_sorted (v : Json) (hexact : v.Exact) :
    (v.sorted before).Exact := by
  match v with
  | array items => exact exactItems_sorted items hexact
  | object members => exact exactMembers_sorted members [] trivial hexact
  | null => trivial
  | bool b => trivial
  | string s => trivial
  | number n => exact hexact

/-- Sorting keeps the items exact. -/
theorem exactItems_sorted (items : List Json) (hexact : ExactItems items) :
    ExactItems (sortedItems before items) := by
  match items with
  | [] => trivial
  | item :: rest =>
      exact ⟨exact_sorted item hexact.1, exactItems_sorted rest hexact.2⟩

/-- Sorting keeps the members exact. -/
theorem exactMembers_sorted (members done : List (String × Json))
    (hdone : ExactMembers done) (hexact : ExactMembers members) :
    ExactMembers (sortedMembers before done members) := by
  match members with
  | [] => exact hdone
  | (name, value) :: rest =>
      have hvalue := exact_sorted value hexact.1
      exact exactMembers_sorted rest _
        (exactMembers_insertMember hvalue hdone) hexact.2

end

mutual

/-- Sorting nests nothing deeper. -/
theorem depth_sorted_le (v : Json) (limit : Nat) (hdepth : v.depth ≤ limit) :
    (v.sorted before).depth ≤ limit := by
  match v, limit with
  | array items, limit + 1 =>
      exact Nat.succ_le_succ
        (itemsDepth_sorted_le items limit (Nat.le_of_succ_le_succ hdepth))
  | object members, limit + 1 =>
      have hmembers := membersDepth_sorted_le members [] limit (Nat.zero_le _)
        (Nat.le_of_succ_le_succ hdepth)
      exact Nat.succ_le_succ hmembers
  | null, _ => exact Nat.zero_le _
  | bool b, _ => exact Nat.zero_le _
  | string s, _ => exact Nat.zero_le _
  | number n, _ => exact Nat.zero_le _

/-- Sorting makes the items no deeper. -/
theorem itemsDepth_sorted_le (items : List Json) (limit : Nat)
    (hdepth : itemsDepth items ≤ limit) :
    itemsDepth (sortedItems before items) ≤ limit := by
  match items with
  | [] => exact Nat.zero_le _
  | item :: rest =>
      rw [itemsDepth] at hdepth
      have hitem := depth_sorted_le item limit (by omega)
      have hrest := itemsDepth_sorted_le rest limit (by omega)
      rw [sortedItems, itemsDepth]
      omega

/-- Sorting makes the members no deeper. -/
theorem membersDepth_sorted_le (members done : List (String × Json))
    (limit : Nat) (hdone : membersDepth done ≤ limit)
    (hdepth : membersDepth members ≤ limit) :
    membersDepth (sortedMembers before done members) ≤ limit := by
  match members with
  | [] => exact hdone
  | (name, value) :: rest =>
      rw [membersDepth] at hdepth
      have hvalue := depth_sorted_le value limit (by omega)
      rw [sortedMembers]
      exact membersDepth_sorted_le rest _ limit
        (membersDepth_insertMember_le hvalue hdone) (by omega)

end

/-- Items are as deep as the deepest of them. -/
theorem itemsDepth_le_iff {items : List Json} {n : Nat} :
    itemsDepth items ≤ n ↔ ∀ v ∈ items, v.depth ≤ n := by
  induction items with
  | nil => simp [itemsDepth]
  | cons item rest ih =>
      rw [itemsDepth, Nat.max_le, ih, List.forall_mem_cons]

/-- Members are as deep as the deepest of their values. -/
theorem membersDepth_le_iff {members : List (String × Json)} {n : Nat} :
    membersDepth members ≤ n ↔ ∀ m ∈ members, m.2.depth ≤ n := by
  induction members with
  | nil => simp [membersDepth]
  | cons m rest ih =>
      rw [membersDepth, Nat.max_le, ih, List.forall_mem_cons]

/-- How the members of the objects in a value are arranged. -/
inductive Arrangement where
  /-- As they are written. -/
  | written
  /-- In order, each name once. -/
  | normal

namespace Arrangement

/-- A value with its members arranged. -/
def of : Arrangement → Json → Json
  | written, v => v
  | normal, v => v.normal

/-- The arrangement as written leaves every item as it is. -/
theorem map_written (items : List Json) : items.map written.of = items :=
  List.map_id items

/-- An array is arranged by arranging its items. -/
theorem of_array (a : Arrangement) (items : List Json) :
    a.of (array items) = array (items.map a.of) := by
  cases a with
  | written => rw [map_written, of]
  | normal => exact normal_array items

/-- Arranging an array never gives `null`. -/
theorem of_array_ne_null (a : Arrangement) (items : List Json) :
    a.of (array items) ≠ null := by
  rw [of_array]
  exact nofun

/-- Arranging nests nothing deeper. -/
theorem depth_of_le {v : Json} {limit : Nat} (a : Arrangement)
    (hdepth : v.depth ≤ limit) :
    (a.of v).depth ≤ limit := by
  cases a with
  | written => exact hdepth
  | normal => exact depth_sorted_le v limit hdepth

end Arrangement

/-- An arranged list is read item by item. -/
theorem items_arranged {α : Type} {item : Nat → Reader α} {write : α → Json}
    {depth : Nat} {a : Arrangement} (xs : List α) (rest : List Token)
    (hdepth : (array (xs.map write)).depth ≤ depth)
    (hitem : ∀ x ∈ xs, ∀ limit, (write x).depth ≤ limit →
      ∀ rest, item limit ((a.of (write x)).tokens ++ rest) = .ok (x, rest)) :
    items item depth ((a.of (array (xs.map write))).tokens ++ rest) =
      .ok (xs, rest) := by
  cases depth with
  | zero => cases hdepth
  | succ depth =>
      rw [a.of_array, tokens, itemTokens_eq, List.map_map, List.map_map,
        List.cons_append, List.append_assoc]
      refine items_tokens xs rest fun x hx =>
        ⟨opens_tokens _, hitem x hx depth ?_⟩
      exact itemsDepth_le_iff.mp (Nat.le_of_succ_le_succ hdepth) _
        (List.mem_map_of_mem hx)

/-- What reads the tokens of the normal form reads the canonical bytes. -/
theorem readAll_canonicalBytes {α : Type} {reader : Reader α} {v : Json} {a : α}
    (hexact : v.Exact) (hread : reader v.normal.tokens = .ok (a, [])) :
    readAll reader v.canonicalBytes = .ok a := by
  have hscan : Token.scan (Utf8.encode v.normal.render) = v.normal.tokens :=
    scan_render _ (exact_sorted v hexact)
  rw [readAll, canonicalBytes, canonical, hscan, hread]

/-- Canonical bytes are read back to the normal form. -/
theorem parse_canonicalBytes (v : Json) (hexact : v.Exact)
    (hdepth : v.depth ≤ maxDepth) :
    parse v.canonicalBytes = .ok v.normal := by
  have hread :=
    value_tokens v.normal maxDepth [] (depth_sorted_le v maxDepth hdepth)
  rw [List.append_nil] at hread
  exact readAll_canonicalBytes hexact hread

end DidVault.Json
