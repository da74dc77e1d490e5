import DidVault.Json.Reader
import DidVault.Proofs.Json.Tokens

/-!
# Reading lists and records

A reader that reads one item from its tokens reads a list of them
(`items_tokens`), and members that are read one after another are read as an
object (`membersFrom_tokens`).  With these, `value_tokens` says that every value
is read back from its own tokens, if it is not nested deeper than the reader
allows.
-/

namespace DidVault.Json

/-- Token lists with commas between them. -/
def separated : List (List Token) → List Token
  | [] => []
  | ts :: rest => ts ++ rest.flatMap (.comma :: ·)

/-- A list of more than one item begins with its first item and a comma. -/
theorem separated_cons (ts : List Token) (rest : List (List Token))
    (hrest : rest ≠ []) :
    separated (ts :: rest) = ts ++ .comma :: separated rest := by
  cases rest with
  | nil => exact absurd rfl hrest
  | cons next more => rfl

/-- Nothing but an item can begin like this. -/
def Opens (ts : List Token) : Prop :=
  ∃ t more, ts = t :: more ∧ t ≠ .endArray ∧ t ≠ .comma

/-- Whether tokens open a value is decided by the first of them. -/
theorem Opens.append {ts : List Token} (h : Opens ts) (rest : List Token) :
    Opens (ts ++ rest) := by
  obtain ⟨t, more, rfl, ht⟩ := h
  exact ⟨t, more ++ rest, rfl, ht⟩

/-- An item begins where its tokens open a value, after a comma unless it is the
first. -/
theorem nextItem_opens {ts : List Token} (h : Opens ts) :
    nextItem true ts = .ok (true, ts) ∧
      nextItem false (.comma :: ts) = .ok (true, ts) := by
  obtain ⟨t, more, rfl, hend, hcomma⟩ := h
  cases t
  case endArray => exact absurd rfl hend
  case comma => exact absurd rfl hcomma
  all_goals exact ⟨rfl, rfl⟩

/-- There are at least as many tokens as items, if every item has a token. -/
theorem length_le_length_flatMap {α β : Type} (f : α → List β) (as : List α)
    (hf : ∀ a ∈ as, f a ≠ []) :
    as.length ≤ (as.flatMap f).length := by
  induction as with
  | nil => exact Nat.le_refl _
  | cons a as ih =>
      have ha := List.length_pos_iff.mpr (hf a (List.mem_cons_self ..))
      have has := ih fun b hb => hf b (List.mem_cons_of_mem _ hb)
      rw [List.flatMap_cons, List.length_append, List.length_cons]
      omega

/-- There are at least as many tokens as items, also with commas between the
items. -/
theorem length_le_length_separated (tss : List (List Token))
    (hopen : ∀ ts ∈ tss, ts ≠ []) :
    tss.length ≤ (separated tss).length := by
  cases tss with
  | nil => exact Nat.le_refl _
  | cons ts rest =>
      have hts := List.length_pos_iff.mpr (hopen ts (List.mem_cons_self ..))
      have hrest := length_le_length_flatMap (Token.comma :: ·) rest fun _ _ =>
        List.cons_ne_nil _ _
      rw [separated, List.length_append, List.length_cons]
      omega

section Lists

variable {α : Type} {item : Reader α} {encode : α → List Token}

/-- Items behind the first one. -/
theorem itemsFrom_flatMap (as : List α) (rest : List Token) {fuel : Nat}
    (hitem : ∀ a ∈ as, Opens (encode a) ∧ ∀ rest,
      item (encode a ++ rest) = .ok (a, rest))
    (hfuel : as.length < fuel) :
    itemsFrom item fuel false
      ((as.map encode).flatMap (.comma :: ·) ++ .endArray :: rest) =
        .ok (as, rest) := by
  induction as generalizing fuel with
  | nil =>
      cases fuel with
      | zero => cases hfuel
      | succ fuel => rfl
  | cons a as ih =>
      cases fuel with
      | zero => cases hfuel
      | succ fuel =>
          obtain ⟨hopens, hread⟩ := hitem a (List.mem_cons_self ..)
          have hmore := ih (fun b hb => hitem b (List.mem_cons_of_mem _ hb))
            (Nat.lt_of_succ_lt_succ hfuel)
          rw [List.map_cons, List.flatMap_cons, List.cons_append,
            List.cons_append, List.append_assoc, itemsFrom,
            (nextItem_opens (hopens.append _)).2]
          simp only [hread, hmore]

/-- A list of items is read item by item. -/
theorem itemsFrom_tokens (as : List α) (rest : List Token) {fuel : Nat}
    (hitem : ∀ a ∈ as, Opens (encode a) ∧ ∀ rest,
      item (encode a ++ rest) = .ok (a, rest))
    (hfuel : as.length < fuel) :
    itemsFrom item fuel true (separated (as.map encode) ++ .endArray :: rest) =
      .ok (as, rest) := by
  cases fuel with
  | zero => cases hfuel
  | succ fuel =>
      cases as with
      | nil => rfl
      | cons a as =>
          obtain ⟨hopens, hread⟩ := hitem a (List.mem_cons_self ..)
          have hmore := itemsFrom_flatMap as rest
            (fun b hb => hitem b (List.mem_cons_of_mem _ hb))
              (Nat.lt_of_succ_lt_succ hfuel)
          rw [List.map_cons, separated, List.append_assoc, itemsFrom,
            (nextItem_opens (hopens.append _)).1]
          simp only [hread, hmore]

/-- The fuel that an array is read with suffices for all of its items. -/
theorem length_lt_of_separated (as : List α) (rest : List Token)
    (hopens : ∀ a ∈ as, Opens (encode a)) :
    as.length < (separated (as.map encode) ++ .endArray :: rest).length +
      1 := by
  have hlength := length_le_length_separated (as.map encode) fun ts hts => by
    obtain ⟨a, ha, rfl⟩ := List.mem_map.mp hts
    obtain ⟨t, more, heq, -⟩ := hopens a ha
    rw [heq]
    exact List.cons_ne_nil _ _
  rw [List.length_map] at hlength
  rw [List.length_append]
  omega

end Lists

/-- Reads a list of items that are read each from its own tokens. -/
theorem items_tokens {α : Type} {item : Nat → Reader α}
    {encode : α → List Token} {depth : Nat} (as : List α) (rest : List Token)
    (hitem : ∀ a ∈ as, Opens (encode a) ∧
      ∀ rest, item depth (encode a ++ rest) = .ok (a, rest)) :
    items item (depth + 1)
      (.beginArray :: (separated (as.map encode) ++ .endArray :: rest)) =
        .ok (as, rest) := by
  rw [items]
  exact itemsFrom_tokens as rest hitem
    (length_lt_of_separated as rest fun a ha => (hitem a ha).1)

/-- The tokens of a member. -/
def memberToken (m : String × List Token) : List Token :=
  .string (.ok m.1) :: .colon :: m.2

/-- Members that are read one after another, each from its own tokens. -/
inductive Folds {σ : Type} (member : σ → String → Reader σ) :
    σ → List (String × List Token) → σ → Prop where
  | nil (s : σ) : Folds member s [] s
  | cons {s s' s'' : σ} {name : String} {ts : List Token}
      {ms : List (String × List Token)}
      (hmember : ∀ rest,
        member s name (.colon :: (ts ++ rest)) = .ok (s', rest))
      (hrest : Folds member s' ms s'') : Folds member s ((name, ts) :: ms) s''

section Records

variable {σ : Type} {member : σ → String → Reader σ} {s s' : σ}
  {ms : List (String × List Token)}

/-- Members behind the first one. -/
theorem membersFrom_flatMap (rest : List Token) {fuel : Nat}
    (h : Folds member s ms s') (hfuel : ms.length < fuel) :
    membersFrom member fuel false s
      ((ms.map memberToken).flatMap (.comma :: ·) ++ .endObject :: rest) =
        .ok (s', rest) := by
  induction h generalizing fuel with
  | nil s =>
      cases fuel with
      | zero => cases hfuel
      | succ fuel => rfl
  | cons hmember _ ih =>
      cases fuel with
      | zero => cases hfuel
      | succ fuel =>
          have hmore := ih (Nat.lt_of_succ_lt_succ hfuel)
          simp only [List.map_cons, List.flatMap_cons, memberToken,
            List.cons_append, List.append_assoc, membersFrom, nextName,
            Bool.false_eq_true, if_false, hmember, hmore]

/-- Members are read one by one up to the end of the object. -/
theorem membersFrom_tokens (rest : List Token) {fuel : Nat}
    (h : Folds member s ms s') (hfuel : ms.length < fuel) :
    membersFrom member fuel true s
      (separated (ms.map memberToken) ++ .endObject :: rest) =
        .ok (s', rest) := by
  cases fuel with
  | zero => cases hfuel
  | succ fuel =>
      cases h with
      | nil => rfl
      | cons hmember hrest =>
          have hmore :=
            membersFrom_flatMap rest hrest (Nat.lt_of_succ_lt_succ hfuel)
          simp only [List.map_cons, separated, memberToken, List.cons_append,
            List.append_assoc, membersFrom, nextName, if_true, hmember, hmore]

/-- The fuel that an object is read with suffices for all of its members. -/
theorem length_lt_of_members (ms : List (String × List Token))
    (rest : List Token) :
    ms.length < (separated (ms.map memberToken) ++ .endObject :: rest).length +
      1 := by
  have hlength :=
    length_le_length_separated (ms.map memberToken) fun ts hts => by
      obtain ⟨m, -, rfl⟩ := List.mem_map.mp hts
      exact List.cons_ne_nil _ _
  rw [List.length_map] at hlength
  rw [List.length_append]
  omega

end Records

/-- An array's tokens are those of its items, separated by commas. -/
theorem itemTokens_eq (items : List Json) :
    itemTokens items = separated (items.map tokens) := by
  induction items with
  | nil => rfl
  | cons item rest ih =>
      cases rest with
      | nil => exact (List.append_nil _).symm
      | cons next more =>
          have hjoin := separated_cons item.tokens ((next :: more).map tokens)
            (List.cons_ne_nil _ _)
          rw [List.map_cons, hjoin, ← ih]
          rfl

/-- A member with the tokens of its value. -/
def tokenized (m : String × Json) : String × List Token :=
  (m.1, m.2.tokens)

/-- An object's tokens are those of its members, separated by commas. -/
theorem memberTokens_eq (members : List (String × Json)) :
    memberTokens members =
      separated ((members.map tokenized).map memberToken) := by
  induction members with
  | nil => rfl
  | cons m rest ih =>
      obtain ⟨name, value⟩ := m
      cases rest with
      | nil =>
          exact (List.append_nil (memberToken (tokenized (name, value)))).symm
      | cons next more =>
          have hjoin := separated_cons (memberToken (tokenized (name, value)))
            (((next :: more).map tokenized).map memberToken)
              (List.cons_ne_nil _ _)
          rw [List.map_cons, List.map_cons, hjoin, ← ih]
          rfl

/-- A value begins like no other token. -/
theorem opens_tokens (v : Json) : Opens v.tokens := by
  cases v <;> exact ⟨_, _, rfl, nofun, nofun⟩

mutual

/-- How many lists and objects stand inside one another. -/
def depth : Json → Nat
  | array items => itemsDepth items + 1
  | object members => membersDepth members + 1
  | null | bool _ | number _ | string _ => 0

/-- The greatest depth of the items of a list. -/
def itemsDepth : List Json → Nat
  | [] => 0
  | item :: rest => max (depth item) (itemsDepth rest)

/-- The greatest depth of the values of members. -/
def membersDepth : List (String × Json) → Nat
  | [] => 0
  | (_, value) :: rest => max (depth value) (membersDepth rest)

end

/-- Puts one more member behind those that have been read. -/
def addMember (depth : Nat) (members : List (String × Json)) (name : String) :
    Reader (List (String × Json)) := fun tokens =>
  match behindColon (value depth) tokens with
  | .ok (v, rest) => .ok (members ++ [(name, v)], rest)
  | .error fault => .error fault

/-- A bracket begins an array, which is read one level deeper. -/
theorem value_beginArray {limit : Nat} {ts rest : List Token}
    {items : List Json}
    (h : itemsFrom (value limit) (ts.length + 1) true ts = .ok (items, rest)) :
    value (limit + 1) (.beginArray :: ts) = .ok (array items, rest) := by
  rw [value]
  simp only [h]

/-- A brace begins an object, which is read one level deeper. -/
theorem value_beginObject {limit : Nat} {ts rest : List Token}
    {members : List (String × Json)}
    (h : membersFrom (addMember limit) (ts.length + 1) true [] ts =
      .ok (members, rest)) :
    value (limit + 1) (.beginObject :: ts) = .ok (object members, rest) := by
  rw [value]
  generalize hmembers : membersFrom _ (ts.length + 1) true [] ts = r
  obtain rfl : r = .ok (members, rest) := hmembers.symm.trans h
  rfl

mutual

/-- A value that is not nested too deep is read back from its tokens. -/
theorem value_tokens (v : Json) (limit : Nat) (rest : List Token)
    (hdepth : v.depth ≤ limit) :
    value limit (v.tokens ++ rest) = .ok (v, rest) := by
  cases v with
  | null => cases limit <;> rfl
  | bool b => cases limit <;> rfl
  | number n => cases limit <;> rfl
  | string s => cases limit <;> rfl
  | array items =>
      cases limit with
      | zero => cases hdepth
      | succ limit =>
          have hitems :=
            value_of_mem items limit (Nat.le_of_succ_le_succ hdepth)
          rw [tokens, itemTokens_eq, List.cons_append, List.append_assoc]
          refine value_beginArray (itemsFrom_tokens items rest hitems ?_)
          exact length_lt_of_separated items rest fun v hv => (hitems v hv).1
  | object members =>
      cases limit with
      | zero => cases hdepth
      | succ limit =>
          have hmembers :=
            folds_members members [] limit (Nat.le_of_succ_le_succ hdepth)
          rw [tokens, memberTokens_eq, List.cons_append, List.append_assoc]
          exact value_beginObject
            (membersFrom_tokens rest hmembers (length_lt_of_members _ rest))

/-- Every item's tokens open a value and are read back as the item. -/
theorem value_of_mem (items : List Json) (limit : Nat)
    (hdepth : itemsDepth items ≤ limit) :
    ∀ v ∈ items, Opens v.tokens ∧ ∀ rest,
      value limit (v.tokens ++ rest) = .ok (v, rest) := by
  match items with
  | [] => exact fun v hv => nomatch hv
  | item :: more =>
      simp only [itemsDepth] at hdepth
      have hitem := fun rest => value_tokens item limit rest (by omega)
      have hmore := value_of_mem more limit (by omega)
      intro v hv
      rcases List.mem_cons.mp hv with rfl | hv
      · exact ⟨opens_tokens _, hitem⟩
      · exact hmore v hv

/-- Reading an object's members appends them to those already read. -/
theorem folds_members (members done : List (String × Json)) (limit : Nat)
    (hdepth : membersDepth members ≤ limit) :
    Folds (addMember limit) done (members.map tokenized) (done ++ members) := by
  match members with
  | [] =>
      rw [List.append_nil]
      exact .nil done
  | (name, v) :: more =>
      simp only [membersDepth] at hdepth
      have hmore := folds_members more (done ++ [(name, v)]) limit (by omega)
      rw [List.append_assoc] at hmore
      refine .cons (fun rest => ?_) hmore
      have hvalue := value_tokens v limit rest (by omega)
      simp only [addMember, behindColon, colon, hvalue]

end

end DidVault.Json
