import DidVault.Json.Record
import DidVault.Proofs.Json.Canonical

/-!
# Reading records

A record is written by giving each of its names a value or none (`membersOf`).
What a shape reads from such an object, in whatever order its names come, is
found by putting the fields into the blank record one after another
(`Shape.read_object`).  In normal form the names are in order
(`normal_membersOf`), and otherwise as they were given
(`Arrangement.of_membersOf`).
-/

namespace DidVault.Json

/-- The members of the names that have a value. -/
def membersOf (value? : String → Option Json) (names : List String) :
    List (String × Json) :=
  names.filterMap fun name => (value? name).map (name, ·)

variable {value? : String → Option Json} {names : List String}

/-- The members of a list of names are those of the first name and of the
others. -/
theorem membersOf_cons (name : String) (names : List String) :
    membersOf value? (name :: names) =
      ((value? name).map (name, ·)).toList ++ membersOf value? names := by
  rw [membersOf, List.filterMap_cons]
  cases value? name <;> rfl

/-- Members are in order if their names are. -/
theorem membersOf_inOrder
    (hnames : names.Pairwise fun a b => utf16Before a b = true) :
    InOrder (membersOf value? names) := by
  refine hnames.filterMap _ fun a b hab m hm n hn => ?_
  obtain ⟨v, -, rfl⟩ := Option.map_eq_some_iff.mp hm
  obtain ⟨w, -, rfl⟩ := Option.map_eq_some_iff.mp hn
  exact hab

/-- Members are as deep as the deepest value of the names. -/
theorem membersDepth_membersOf_le_iff {n : Nat} :
    membersDepth (membersOf value? names) ≤ n ↔
      ∀ name ∈ names, ∀ v, value? name = some v → v.depth ≤ n := by
  rw [membersDepth_le_iff]
  constructor
  · intro hdepth name hname v hv
    refine hdepth (name, v) (List.mem_filterMap.mpr ⟨name, hname, ?_⟩)
    rw [hv]
    rfl
  · intro hdepth m hm
    obtain ⟨name, hname, hv⟩ := List.mem_filterMap.mp hm
    obtain ⟨v, hvalue, rfl⟩ := Option.map_eq_some_iff.mp hv
    exact hdepth name hname v hvalue

/-- The value of a name is no deeper than all the members. -/
theorem depth_le_of_member {name : String} {v : Json} (hname : name ∈ names)
    (hvalue : value? name = some v) :
    v.depth ≤ membersDepth (membersOf value? names) :=
  membersDepth_membersOf_le_iff.mp (Nat.le_refl _) name hname v hvalue

/-- An object of exact values is exact. -/
theorem exact_membersOf
    (hexact : ∀ name ∈ names, ∀ v, value? name = some v → v.Exact) :
    (object (membersOf value? names)).Exact := by
  refine exactMembers_iff.mpr fun m hm => ?_
  obtain ⟨name, hname, hv⟩ := List.mem_filterMap.mp hm
  obtain ⟨v, hvalue, rfl⟩ := Option.map_eq_some_iff.mp hv
  exact hexact name hname v hvalue

/-- An array of texts nests one level deep. -/
theorem depth_texts_le (ss : List String) :
    (array (ss.map string)).depth ≤ 1 := by
  refine Nat.succ_le_succ (itemsDepth_le_iff.mpr fun v hv => ?_)
  obtain ⟨s, -, rfl⟩ := List.mem_map.mp hv
  exact Nat.le_refl 0

/-- An array of texts is exact. -/
theorem exact_texts (ss : List String) : (array (ss.map string)).Exact := by
  refine exactItems_iff.mpr fun v hv => ?_
  obtain ⟨s, -, rfl⟩ := List.mem_map.mp hv
  trivial

/-- The members of the normal forms are the normal forms of the members. -/
theorem map_normalMember_membersOf :
    (membersOf value? names).map normalMember =
      membersOf (fun name => (value? name).map normal) names := by
  rw [membersOf, List.map_filterMap, membersOf]
  refine congrArg (fun f => List.filterMap f names) (funext fun name => ?_)
  cases value? name <;> rfl

/-- The normal form of a record has its names in order. -/
theorem normal_membersOf {sorted : List String} (hperm : sorted.Perm names)
    (hsorted : sorted.Pairwise fun a b => utf16Before a b = true) :
    (object (membersOf value? names)).normal =
      object (membersOf (fun name => (value? name).map normal) sorted) := by
  refine normal_object ?_ (membersOf_inOrder hsorted)
  rw [map_normalMember_membersOf]
  exact hperm.filterMap _

/-- The names of a record as they are arranged, of which the order of writing
and the sorted order are known. -/
def Arrangement.pick (a : Arrangement) (names sorted : List String) :
    List String :=
  match a with
  | written => names
  | normal => sorted

/-- An arrangement picks the names in some order. -/
theorem Arrangement.pick_perm {sorted : List String} (a : Arrangement)
    (hperm : sorted.Perm names) :
    (a.pick names sorted).Perm names := by
  cases a with
  | written => exact List.Perm.refl _
  | normal => exact hperm

/-- An arranged record. -/
theorem Arrangement.of_membersOf {sorted : List String} (a : Arrangement)
    (hperm : sorted.Perm names)
    (hsorted : sorted.Pairwise fun a b => utf16Before a b = true) :
    a.of (object (membersOf value? names)) =
      object (membersOf (fun name => (value? name).map a.of)
        (a.pick names sorted)) := by
  cases a with
  | written =>
      have hsame :
          (fun name => (value? name).map Arrangement.written.of) = value? :=
        funext fun name => congrFun Option.map_id (value? name)
      rw [hsame]
      rfl
  | normal => exact normal_membersOf hperm hsorted

namespace Shape

variable {σ : Type} {shape : Shape σ} {depth : Nat} {put : String → σ → σ}

/-- Every name that has a value is that of a field, which reads the value by
putting it into the record. -/
def Reads (shape : Shape σ) (depth : Nat) (value? : String → Option Json)
    (names : List String) (put : String → σ → σ) : Prop :=
  ∀ name ∈ names, ∀ v, value? name = some v →
    ∃ field, shape.field? name = some field ∧
      ∀ record rest,
      field.read depth record (v.tokens ++ rest) = .ok (put name record, rest)

/-- A record into which the fields of the names that have a value are put. -/
def filled (value? : String → Option Json) (put : String → σ → σ) (record : σ)
    (names : List String) : σ :=
  names.foldl (fun record name =>
    if (value? name).isSome then put name record else record) record

/-- The names of the members, the last one first. -/
def namesRead (value? : String → Option Json) (names : List String) :
    List String :=
  (names.filter fun name => (value? name).isSome).reverse

/-- A member with a new name is read by its field and noted as seen. -/
theorem member_ok {name : String} {ts rest : List Token} {seen : List String}
    {record record' : σ} {field : Field σ}
    (hfield : shape.field? name = some field) (hnew : name ∉ seen)
    (hread : field.read depth record ts = .ok (record', rest)) :
    shape.member depth (seen, record) name (.colon :: ts) =
      .ok ((name :: seen, record'), rest) := by
  simp only [member, hfield, hnew, if_false, behindColon, colon, hread]

/-- The members of a record are read one after another. -/
theorem folds_membersOf (seen : List String) (record : σ)
    (hreads : shape.Reads depth value? names put) (hnodup : names.Nodup)
    (hnew : ∀ name ∈ names, name ∉ seen) :
    Folds (shape.member depth) (seen, record)
      ((membersOf value? names).map tokenized)
        (namesRead value? names ++ seen, filled value? put record names) := by
  induction names generalizing seen record with
  | nil => exact .nil _
  | cons name names ih =>
      obtain ⟨hname, hrest⟩ := List.nodup_cons.mp hnodup
      have hreads' : shape.Reads depth value? names put :=
        fun n hn => hreads n (List.mem_cons_of_mem _ hn)
      have hnew' : ∀ n ∈ names, n ∉ seen :=
        fun n hn => hnew n (List.mem_cons_of_mem _ hn)
      rw [membersOf_cons, namesRead, filled, List.foldl_cons, List.filter_cons]
      cases hvalue : value? name with
      | none => exact ih seen record hreads' hrest hnew'
      | some v =>
          obtain ⟨field, hfield, hread⟩ :=
            hreads name (List.mem_cons_self ..) v hvalue
          have hmore := ih (name :: seen) (put name record) hreads' hrest
            fun n hn hmem => by
              rcases List.mem_cons.mp hmem with rfl | h
              · exact hname hn
              · exact hnew' n hn h
          have hnames :
              (name :: names.filter fun n => (value? n).isSome).reverse ++
                seen = namesRead value? names ++ name :: seen := by
            rw [List.reverse_cons, List.append_assoc]
            rfl
          show Folds _ _ _
              ((name :: names.filter fun n => (value? n).isSome).reverse
                ++ seen, _)
          rw [hnames]
          refine .cons (fun rest => ?_) hmore
          exact member_ok hfield (hnew name (List.mem_cons_self ..))
            (hread record rest)

/-- A record is read from an object, if no required field is without a value. -/
theorem read_object (rest : List Token)
    (hreads : shape.Reads depth value? names put) (hnodup : names.Nodup)
    (hrequired : ∀ field ∈ shape.fields, field.required = true →
      field.name ∈ names ∧ (value? field.name).isSome = true) :
    shape.read (depth + 1) ((object (membersOf value? names)).tokens ++ rest) =
      .ok (filled value? put shape.blank names, rest) := by
  have hfolds := folds_membersOf [] shape.blank hreads hnodup
    fun _ _ => List.not_mem_nil
  have hmembers := membersFrom_tokens rest hfolds (length_lt_of_members _ rest)
  have hmissing : shape.missing? (namesRead value? names ++ []) = none := by
    refine List.find?_eq_none.mpr fun field hfield => ?_
    rw [Bool.not_eq_true, Bool.and_eq_false_iff, Bool.not_eq_false']
    by_cases hneeded : field.required = true
    · obtain ⟨hname, hvalue⟩ := hrequired field hfield hneeded
      right
      rw [List.contains_iff_mem, List.append_nil, namesRead, List.mem_reverse,
        List.mem_filter]
      exact ⟨hname, hvalue⟩
    · exact .inl (by simpa using hneeded)
  rw [tokens, memberTokens_eq, List.cons_append, List.append_assoc]
  show shape.members depth _ = _
  simp only [members, List.cons_append, List.nil_append, hmembers, hmissing]

end Shape

/-- A field that is read by an item puts it into the record. -/
theorem Field.read_of {σ α : Type} {name : String} {required : Bool}
    {item : Nat → Reader α} {put : σ → α → σ} {depth : Nat} {record : σ}
    {ts rest : List Token} {a : α} (hitem : item depth ts = .ok (a, rest)) :
    (Field.of name required item put).read depth record ts =
      .ok (put record a, rest) := by
  simp only [Field.of, hitem]

/-- An item that is there is read as such, since it is not written as null. -/
theorem optional_tokens {α : Type} {item : Reader α} {v : Json}
    {rest : List Token} {a : α} (hnull : v ≠ null)
    (hitem : item (v.tokens ++ rest) = .ok (a, rest)) :
    optional item (v.tokens ++ rest) = .ok (some a, rest) := by
  cases v
  case null => exact absurd rfl hnull
  all_goals
    rw [tokens] at hitem ⊢
    simp only [List.cons_append, optional] at hitem ⊢
    rw [hitem]

/-- A text is read back. -/
theorem text_tokens (a : Arrangement) (s : String) (rest : List Token) :
    text ((a.of (string s)).tokens ++ rest) = .ok (s, rest) := by
  cases a <;> rfl

/-- A text that may be absent is read back. -/
theorem optional_text_tokens (a : Arrangement) (s : String)
    (rest : List Token) :
    optional text ((a.of (string s)).tokens ++ rest) = .ok (some s, rest) := by
  cases a <;> rfl

end DidVault.Json
