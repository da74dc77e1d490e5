import DidVault.Json.Datum
import DidVault.Proofs.Json.Canonical
import DidVault.Proofs.Json.Equality

/-!
# Canonical JSON is a normal form

Every value without floats has canonical bytes, and these are read back to the
same value, so that two values have the same canonical bytes exactly if they are
the same value (`canonicalBytes_normalForm`).  In the text all members are in
order, at every depth (`inOrder_of_part`), and outside of quotes there is no
blank (`blankless_chars`).
-/

namespace DidVault

namespace Datum

mutual

/-- A JSON value as a program holds it. -/
def ofJson : Json → Datum
  | .null => null
  | .bool b => bool b
  | .number (.whole n) => whole n
  | .number (.float x) => float x
  | .string s => text s
  | .array items => list (listOfJson items)
  | .object members => map (entriesOfJson members)

/-- The items of a list as a program holds them. -/
def listOfJson : List Json → List Datum
  | [] => []
  | item :: rest => ofJson item :: listOfJson rest

/-- The members of an object as a program holds them, each with a text for its
name. -/
def entriesOfJson : List (String × Json) → List (Datum × Datum)
  | [] => []
  | (name, value) :: rest => (text name, ofJson value) :: entriesOfJson rest

end

mutual

/-- A value of exact numbers is read back from its data. -/
theorem toJson_ofJson (v : Json) (hexact : v.Exact) :
    (ofJson v).toJson = .ok v := by
  match v with
  | .null => rfl
  | .bool b => rfl
  | .string s => rfl
  | .number (.whole n) => exact if_pos hexact
  | .number (.float x) => exact hexact.elim
  | .array items =>
      rw [ofJson, toJson, listToJson_listOfJson items hexact]
      rfl
  | .object members =>
      rw [ofJson, toJson, entriesToJson_entriesOfJson members hexact]
      rfl

/-- The items of an array of exact numbers are read back from their data. -/
theorem listToJson_listOfJson (items : List Json)
    (hexact : Json.ExactItems items) :
    listToJson (listOfJson items) = .ok items := by
  match items with
  | [] => rfl
  | item :: rest =>
      rw [listOfJson, listToJson, toJson_ofJson item hexact.1,
        listToJson_listOfJson rest hexact.2]
      rfl

/-- The members of an object of exact numbers are read back from their data. -/
theorem entriesToJson_entriesOfJson (members : List (String × Json))
    (hexact : Json.ExactMembers members) :
    entriesToJson (entriesOfJson members) = .ok members := by
  match members with
  | [] => rfl
  | (name, value) :: rest =>
      rw [entriesOfJson, entriesToJson, toJson_ofJson value hexact.1,
        entriesToJson_entriesOfJson rest hexact.2]
      rfl

end

/-- A JSON value without floats has a canonical text. -/
theorem canonical_ofJson (v : Json) (hexact : v.Exact) :
    (ofJson v).canonical = .ok v.canonical := by
  rw [canonical, toJson_ofJson v hexact]
  rfl

end Datum

namespace Json

/-- A value that stands somewhere in another one. -/
inductive Part (v : Json) : Json → Prop where
  | self : Part v v
  | item {w : Json} {items : List Json} (hpart : Part v w) (hmem : w ∈ items) :
      Part v (array items)
  | member {w : Json} {name : String} {members : List (String × Json)}
      (hpart : Part v w) (hmem : (name, w) ∈ members) : Part v (object members)

/-- The parts of an array are the array and the parts of its items. -/
theorem part_array_iff {v : Json} {items : List Json} :
    Part v (array items) ↔ v = array items ∨ ∃ w ∈ items, Part v w := by
  constructor
  · rintro (_ | ⟨hpart, hmem⟩)
    · exact .inl rfl
    · exact .inr ⟨_, hmem, hpart⟩
  · rintro (rfl | ⟨w, hmem, hpart⟩)
    · exact .self
    · exact .item hpart hmem

/-- The parts of an object are the object and the parts of its members'
values. -/
theorem part_object_iff {v : Json} {members : List (String × Json)} :
    Part v (object members) ↔ v = object members ∨ ∃ m ∈ members,
      Part v m.2 := by
  constructor
  · rintro (_ | _ | ⟨hpart, hmem⟩)
    · exact .inl rfl
    · exact .inr ⟨_, hmem, hpart⟩
  · rintro (rfl | ⟨m, hmem, hpart⟩)
    · exact .self
    · exact .member hpart hmem

/-- In a normal form all members are in order. -/
theorem inOrder_of_part {members : List (String × Json)} (v : Json)
    (hpart : Part (object members) v.normal) : InOrder members := by
  induction v using induction_mem with
  | null => cases hpart
  | bool b => cases hpart
  | number n => cases hpart
  | string s => cases hpart
  | array items ih =>
      rw [normal_array] at hpart
      cases hpart with
      | item hpart hmem =>
          obtain ⟨v, hv, rfl⟩ := List.mem_map.mp hmem
          exact ih v hv hpart
  | object ms ih =>
      rw [normal_eq_object] at hpart
      cases hpart with
      | self => exact inOrder_normalMembers ms
      | member hpart hmem =>
          obtain ⟨v, hv, rfl⟩ :=
            Option.map_eq_some_iff.mp (mem_normalMembers.mp hmem)
          exact ih _ (mem_of_member? hv) hpart

/-- The characters of a JSON text that stand outside quotes.  The first argument
says whether the text begins between quotes. -/
def outside : Bool → List Char → List Char
  | _, [] => []
  | false, '"' :: cs => outside true cs
  | false, c :: cs => c :: outside false cs
  | true, '"' :: cs => outside false cs
  | true, '\\' :: _ :: cs => outside true cs
  | true, _ :: cs => outside true cs

/-- No blank stands outside quotes. -/
def Blankless (cs : List Char) : Prop :=
  ∀ c ∈ outside false cs, c.isWhitespace = false

variable {c : Char} {cs rest : List Char}

/-- A character that needs no escape ends nothing. -/
theorem outside_plain (hquote : c ≠ '"') (hslash : c ≠ '\\')
    (rest : List Char) :
    outside true (c :: rest) = outside true rest := by
  rw [outside]
  · exact hquote
  · intro d ds h
    exact absurd h hslash

/-- An escaped character stays between the quotes. -/
theorem outside_escapeChar (c : Char) (rest : List Char) :
    outside true (escapeChar c ++ rest) = outside true rest := by
  unfold escapeChar
  split
  case h_8 hquote hslash _ _ _ _ _ =>
    by_cases hcontrol : c.toNat < 0x20
    · rw [if_pos hcontrol]
      have hdigit : ∀ n < 16, Nat.digitChar n ≠ '"' ∧
          Nat.digitChar n ≠ '\\' := by decide
      obtain ⟨hquote', hslash'⟩ :=
        hdigit (c.toNat % 16) (Nat.mod_lt _ (by decide))
      have hlead : (if c.toNat < 0x10 then '0' else '1') ≠ '"' ∧
          (if c.toNat < 0x10 then '0' else '1') ≠ '\\' := by
        split <;> decide
      show outside true
          ('0' :: '0' :: _ :: Nat.digitChar (c.toNat % 16) :: rest) = _
      rw [outside_plain (by decide) (by decide),
        outside_plain (by decide) (by decide), outside_plain hlead.1 hlead.2,
        outside_plain hquote' hslash']
    · rw [if_neg hcontrol]
      exact outside_plain hquote hslash rest
  all_goals rfl

/-- A text between quotes leaves nothing outside. -/
theorem outside_quoted (s : String) (rest : List Char) :
    outside false (quoted s ++ rest) = outside false rest := by
  have hchars : ∀ cs : List Char,
      outside true (cs.flatMap escapeChar ++ '"' :: rest) =
        outside false rest := by
    intro cs
    induction cs with
    | nil => rfl
    | cons c cs ih =>
        rw [List.flatMap_cons, List.append_assoc, outside_escapeChar, ih]
  rw [quoted, List.cons_append, List.append_assoc]
  exact hchars s.toList

/-- A quoted text has its blanks between quotes. -/
theorem Blankless.quoted (s : String) (h : Blankless rest) :
    Blankless (quoted s ++ rest) := by
  rw [Blankless, outside_quoted]
  exact h

/-- A character that is neither a quote nor a blank adds no blank. -/
theorem Blankless.cons (hquote : c ≠ '"') (hblank : c.isWhitespace = false)
    (h : Blankless rest) :
    Blankless (c :: rest) := by
  have hcons : outside false (c :: rest) = c :: outside false rest := by
    rw [outside]
    exact hquote
  rw [Blankless, hcons]
  exact List.forall_mem_cons.mpr ⟨hblank, h⟩

/-- A run of characters that are neither quotes nor blanks adds no blank. -/
theorem Blankless.append (hcs : ∀ c ∈ cs, c ≠ '"' ∧ c.isWhitespace = false)
    (h : Blankless rest) :
    Blankless (cs ++ rest) := by
  induction cs with
  | nil => exact h
  | cons c cs ih =>
      obtain ⟨⟨hquote, hblank⟩, hrest⟩ := List.forall_mem_cons.mp hcs
      exact .cons hquote hblank (ih hrest)

/-- A whole number is written without quotes and blanks. -/
theorem Blankless.whole (n : Int) (h : Blankless rest) :
    Blankless (Number.wholeChars n ++ rest) := by
  have hdigits : ∀ c ∈ DecimalStyle.digitsOf n.natAbs,
      c ≠ '"' ∧ c.isWhitespace = false := by
    intro c hc
    have hdigit : c.isDigit = true :=
      Nat.isDigit_of_mem_toDigits (by omega) (by omega) hc
    have hno : ∀ d : Char, d.isDigit = false → c ≠ d := by
      rintro d hd rfl
      exact absurd hdigit (Bool.eq_false_iff.mp hd)
    refine ⟨hno '"' rfl, ?_⟩
    simp [Char.isWhitespace, hno ' ' rfl, hno '\t' rfl, hno '\r' rfl,
      hno '\n' rfl]
  unfold Number.wholeChars
  split
  · exact .cons (by decide) rfl (.append hdigits h)
  · exact .append hdigits h

/-- Nothing but commas stands between the items of an array. -/
theorem Blankless.items {items : List Json}
    (hitems : ∀ v ∈ items, ∀ rest, Blankless rest → Blankless (v.chars ++ rest))
    (h : Blankless rest) :
    Blankless (itemChars items ++ rest) := by
  induction items with
  | nil => exact h
  | cons item more ih =>
      obtain ⟨hitem, hmore⟩ := List.forall_mem_cons.mp hitems
      cases more with
      | nil => exact hitem rest h
      | cons next others =>
          have hjoin : itemChars (item :: next :: others) ++ rest =
              item.chars ++ ',' :: (itemChars (next :: others) ++ rest) :=
                List.append_assoc ..
          rw [hjoin]
          exact hitem _ (.cons (by decide) rfl (ih hmore))

/-- Nothing but colons and commas stands between the names and values of an
object. -/
theorem Blankless.members {members : List (String × Json)}
    (hmembers : ∀ m ∈ members, ∀ rest, Blankless rest →
      Blankless (m.2.chars ++ rest))
    (h : Blankless rest) :
    Blankless (memberChars members ++ rest) := by
  induction members with
  | nil => exact h
  | cons m more ih =>
      obtain ⟨name, value⟩ := m
      obtain ⟨hvalue, hmore⟩ := List.forall_mem_cons.mp hmembers
      cases more with
      | nil =>
          rw [memberChars, List.append_assoc]
          exact .quoted name (.cons (by decide) rfl (hvalue rest h))
      | cons next others =>
          have hjoin : memberChars ((name, value) :: next :: others) ++ rest =
              Json.quoted name ++ ':' :: (value.chars ++ ',' ::
                (memberChars (next :: others) ++ rest)) := by
            simp [memberChars]
          rw [hjoin]
          refine .quoted name (.cons (by decide) rfl (hvalue _ ?_))
          exact .cons (by decide) rfl (ih hmore)

/-- A value is written without blanks outside quotes. -/
theorem blankless_chars (v : Json) (hexact : v.Exact) (rest : List Char)
    (h : Blankless rest) :
    Blankless (v.chars ++ rest) := by
  induction v using induction_mem generalizing rest with
  | null => exact .append (by simp [chars]) h
  | bool b => cases b <;> exact .append (by simp [chars]) h
  | number n =>
      cases n with
      | whole n => exact .whole n h
      | float x => exact hexact.elim
  | string s => exact .quoted s h
  | array items ih =>
      have hitems : ∀ v ∈ items, ∀ rest, Blankless rest →
          Blankless (v.chars ++ rest) :=
        fun v hv => ih v hv (exactItems_iff.mp hexact v hv)
      rw [chars, List.cons_append, List.append_assoc]
      exact .cons (by decide) rfl (.items hitems (.cons (by decide) rfl h))
  | object members ih =>
      have hmembers : ∀ m ∈ members, ∀ rest, Blankless rest →
          Blankless (m.2.chars ++ rest) :=
        fun m hm => ih m hm (exactMembers_iff.mp hexact m hm)
      rw [chars, List.cons_append, List.append_assoc]
      exact .cons (by decide) rfl (.members hmembers (.cons (by decide) rfl h))

/-- Canonical bytes are read back, so they are those of one normal form only. -/
theorem canonicalBytes_inj {v w : Json} (hv : v.Exact) (hw : w.Exact)
    (hdepth : v.depth ≤ maxDepth) (hdepth' : w.depth ≤ maxDepth) :
    v.canonicalBytes = w.canonicalBytes ↔ v.normal = w.normal := by
  constructor
  · intro h
    have hread := parse_canonicalBytes v hv hdepth
    rw [h, parse_canonicalBytes w hw hdepth'] at hread
    exact (Except.ok.inj hread).symm
  · intro h
    rw [canonicalBytes, canonical, h, canonicalBytes, canonical]

/-- Every value without floats that is nested less than 128 deep has canonical
bytes.  They are read back to the same value, written by these bytes, whose
members are in order; they have no blanks outside quotes; and no other value has
the same canonical bytes. -/
theorem canonicalBytes_normalForm (v : Json) (hexact : v.Exact)
    (hdepth : v.depth < 128) :
    (Datum.ofJson v).canonical = .ok v.canonical ∧
      (∃ read, parse v.canonicalBytes = .ok read ∧ read.Same v ∧
        read.render = v.canonical ∧
        ∀ members, Part (object members) read → InOrder members) ∧
      (∀ c ∈ outside false v.canonical.toList, c.isWhitespace = false) ∧
      ∀ w : Json, w.Exact → w.depth < 128 →
        (v.canonicalBytes = w.canonicalBytes ↔ v.Same w) := by
  have hlimit : ∀ {u : Json}, u.depth < 128 → u.depth ≤ maxDepth :=
    Nat.le_of_lt_succ
  refine ⟨Datum.canonical_ofJson v hexact, ⟨v.normal, ?_, ?_, rfl, ?_⟩, ?_, ?_⟩
  · exact parse_canonicalBytes v hexact (hlimit hdepth)
  · exact (same_normal v).symm
  · exact fun members => inOrder_of_part v
  · have hblankless : Blankless (v.normal.chars ++ []) :=
      blankless_chars _ (exact_sorted v hexact) [] nofun
    rw [canonical, render, String.toList_ofList,
      ← List.append_nil v.normal.chars]
    exact hblankless
  · intro w hexact' hdepth'
    rw [canonicalBytes_inj hexact hexact' (hlimit hdepth) (hlimit hdepth'),
      normal_eq_iff_same]

/-- A value with names beyond the basic plane, which are ordered before some
that are not. -/
def astral : Json :=
  object [("\uff61", number (.whole 1)),
    ("😀", array [object [("b", null), ("a", bool true)]])]

/-- The value with its members the other way round, and with one of them
replaced. -/
def astralReordered : Json :=
  object [("😀", null), ("😀", array [object [("a", bool true), ("b", null)]]),
    ("\uff61", number (.whole 1))]

/-- Two values that differ in the order and repetition of members only have the
same canonical bytes, and are thereby the same value. -/
theorem same_of_reordered :
    astral.canonicalBytes = astralReordered.canonicalBytes ∧
      astral.Same astralReordered ∧
      ∃ read, parse astral.canonicalBytes = .ok read ∧ read.Same astral := by
  have hform :=
    canonicalBytes_normalForm astral
      ⟨rfl, ⟨⟨trivial, trivial, trivial⟩, trivial⟩, trivial⟩ (by decide)
  have hbytes : astral.canonicalBytes = astralReordered.canonicalBytes := by
    decide +kernel
  obtain ⟨read, hread, hsame, -⟩ := hform.2.1
  refine ⟨hbytes, (hform.2.2.2 astralReordered ?_ (by decide)).mp hbytes, read,
    hread, hsame⟩
  exact ⟨trivial, ⟨⟨trivial, trivial, trivial⟩, trivial⟩, rfl, trivial⟩

end Json

end DidVault
