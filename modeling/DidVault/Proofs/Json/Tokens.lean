import DidVault.Proofs.Json.Numbers

/-!
# The tokens of a value

`Json.tokens` lists the tokens of a value without going through its text, and
`scan_render` says that these are the tokens that are found in the text.  Values
with floats are left out (`Exact`).
-/

namespace DidVault.Json

mutual

/-- The tokens of a value. -/
def tokens : Json → List Token
  | null => [.null]
  | bool b => [.bool b]
  | number n => [.number (.ok n)]
  | string s => [.string (.ok s)]
  | array items => .beginArray :: (itemTokens items ++ [.endArray])
  | object members => .beginObject :: (memberTokens members ++ [.endObject])

/-- The tokens of the items of an array, with commas between them. -/
def itemTokens : List Json → List Token
  | [] => []
  | [item] => tokens item
  | item :: rest => tokens item ++ .comma :: itemTokens rest

/-- The tokens of the members of an object, with commas between them. -/
def memberTokens : List (String × Json) → List Token
  | [] => []
  | [(name, value)] => .string (.ok name) :: .colon :: tokens value
  | (name, value) :: rest =>
    .string (.ok name) :: .colon ::
      (tokens value ++ .comma :: memberTokens rest)

end

mutual

/-- A value without floats, all of whose numbers fit. -/
def Exact : Json → Prop
  | number (.whole n) => Number.fits n = true
  | number (.float _) => False
  | array items => ExactItems items
  | object members => ExactMembers members
  | null | bool _ | string _ => True

/-- Every item of a list is exact. -/
def ExactItems : List Json → Prop
  | [] => True
  | item :: rest => Exact item ∧ ExactItems rest

/-- The value of every member is exact. -/
def ExactMembers : List (String × Json) → Prop
  | [] => True
  | (_, value) :: rest => Exact value ∧ ExactMembers rest

end

/-- Items are exact if each of them is. -/
theorem exactItems_iff {items : List Json} :
    ExactItems items ↔ ∀ v ∈ items, v.Exact := by
  induction items with
  | nil => exact ⟨fun _ _ hv => (nomatch hv), fun _ => trivial⟩
  | cons item rest ih => rw [ExactItems, ih, List.forall_mem_cons]

/-- Members are exact if each value is. -/
theorem exactMembers_iff {members : List (String × Json)} :
    ExactMembers members ↔ ∀ m ∈ members, m.2.Exact := by
  induction members with
  | nil => exact ⟨fun _ _ hm => (nomatch hm), fun _ => trivial⟩
  | cons m rest ih => rw [ExactMembers, ih, List.forall_mem_cons]

/-- The tokens of a byte string, whatever fuel there is. -/
def Scanned (bytes : Bytes) (ts : List Token) : Prop :=
  ∀ fuel, bytes.length ≤ fuel → scanTokens fuel bytes = ts

/-- Bytes that are scanned to tokens are scanned to these tokens by the
scanner. -/
theorem scan_of_scanned {bytes : Bytes} {ts : List Token}
    (h : Scanned bytes ts) :
    Token.scan bytes = ts :=
  h bytes.length (Nat.le_refl _)

/-- No bytes are scanned to no tokens. -/
theorem scanned_nil : Scanned [] [] := by
  intro fuel _
  cases fuel <;> rfl

variable {b : UInt8} {bytes rest tail : Bytes} {token : Token} {ts : List Token}

/-- One token in front of others. -/
theorem Scanned.cons (hblank : isBlank b = false)
    (hscan : scanToken b rest = (token, tail))
    (hshort : tail.length ≤ rest.length) (htail : Scanned tail ts) :
    Scanned (b :: rest) (token :: ts) := by
  intro fuel hfuel
  cases fuel with
  | zero => cases hfuel
  | succ fuel =>
      have hrest : tail.length ≤ fuel := by
        simp only [List.length_cons] at hfuel
        omega
      rw [scanTokens, hblank]
      simp only [Bool.false_eq_true, if_false, hscan, htail fuel hrest]

/-- Blanks are passed over. -/
theorem Scanned.blank (hblank : isBlank b = true) (h : Scanned rest ts) :
    Scanned (b :: rest) ts := by
  intro fuel hfuel
  cases fuel with
  | zero => cases hfuel
  | succ fuel =>
      rw [scanTokens, if_pos hblank]
      exact h fuel (Nat.le_of_succ_le_succ hfuel)

/-- A comma is scanned as a token. -/
theorem scanned_comma (h : Scanned rest ts) :
    Scanned (0x2c :: rest) (.comma :: ts) :=
  .cons rfl rfl (Nat.le_refl _) h

/-- A colon is scanned as a token. -/
theorem scanned_colon (h : Scanned rest ts) :
    Scanned (0x3a :: rest) (.colon :: ts) :=
  .cons rfl rfl (Nat.le_refl _) h

/-- A bracket that closes an array is scanned as a token. -/
theorem scanned_endArray (h : Scanned rest ts) :
    Scanned (0x5d :: rest) (.endArray :: ts) :=
  .cons rfl rfl (Nat.le_refl _) h

/-- A brace that closes an object is scanned as a token. -/
theorem scanned_endObject (h : Scanned rest ts) :
    Scanned (0x7d :: rest) (.endObject :: ts) :=
  .cons rfl rfl (Nat.le_refl _) h

/-- A quoted string is scanned as the string. -/
theorem scanned_quoted (s : String) (h : Scanned tail ts) :
    Scanned (bytesOf (quoted s) ++ tail) (.string (.ok s) :: ts) := by
  obtain ⟨rest, hbytes, hshort, hscan⟩ := scanToken_quoted s tail
  rw [hbytes]
  exact .cons rfl hscan hshort h

/-- A whole number that fits is scanned as the number. -/
theorem scanned_whole {n : Int} (hfits : Number.fits n = true)
    (htail : Ends tail) (h : Scanned tail ts) :
    Scanned (bytesOf (Number.wholeChars n) ++ tail)
      (.number (.ok (.whole n)) :: ts) := by
  obtain ⟨d, rest, hbytes, hshort, hblank, hscan⟩ :=
    scanToken_whole n hfits htail
  rw [hbytes]
  exact .cons hblank hscan hshort h

/-- A word is scanned to its token. -/
theorem scanned_word (letters : Bytes) (hblank : isBlank b = false)
    (hscan : scanToken b (letters ++ tail) = (token, tail))
    (h : Scanned tail ts) :
    Scanned (b :: (letters ++ tail)) (token :: ts) := by
  refine .cons hblank hscan ?_ h
  rw [List.length_append]
  omega

mutual

/-- The tokens of a value are found in its text, if what follows is no part of a
number. -/
theorem scanned_chars (v : Json) {tail : Bytes} {ts : List Token}
    (hexact : v.Exact) (htail : Ends tail) (h : Scanned tail ts) :
    Scanned (bytesOf v.chars ++ tail) (v.tokens ++ ts) := by
  cases v with
  | null => exact scanned_word [0x75, 0x6c, 0x6c] rfl rfl h
  | bool b =>
      cases b with
      | true => exact scanned_word [0x72, 0x75, 0x65] rfl rfl h
      | false => exact scanned_word [0x61, 0x6c, 0x73, 0x65] rfl rfl h
  | number n =>
      cases n with
      | whole n => exact scanned_whole hexact htail h
      | float x => exact hexact.elim
  | string s => exact scanned_quoted s h
  | array items =>
      have hitems := scanned_itemChars items hexact h
      simp only [chars, tokens, bytesOf_cons, bytesOf_append, List.cons_append,
        List.append_assoc]
      exact .cons rfl rfl (Nat.le_refl _) hitems
  | object members =>
      have hmembers := scanned_memberChars members hexact h
      simp only [chars, tokens, bytesOf_cons, bytesOf_append, List.cons_append,
        List.append_assoc]
      exact .cons rfl rfl (Nat.le_refl _) hmembers

/-- The tokens of the items of an array. -/
theorem scanned_itemChars (items : List Json) {tail : Bytes} {ts : List Token}
    (hexact : ExactItems items) (h : Scanned tail ts) :
    Scanned (bytesOf (itemChars items) ++ (0x5d :: tail))
      (itemTokens items ++ .endArray :: ts) := by
  match items with
  | [] => exact scanned_endArray h
  | [item] =>
      exact scanned_chars item hexact.1 (ends_cons (by decide))
        (scanned_endArray h)
  | item :: next :: rest =>
      have hrest := scanned_itemChars (next :: rest) hexact.2 h
      have hitem :=
        scanned_chars item hexact.1 (ends_cons (by decide))
          (scanned_comma hrest)
      simp only [itemChars, itemTokens, bytesOf_append, bytesOf_cons,
        List.append_assoc, List.cons_append]
      exact hitem

/-- The tokens of the members of an object. -/
theorem scanned_memberChars (members : List (String × Json)) {tail : Bytes}
    {ts : List Token} (hexact : ExactMembers members) (h : Scanned tail ts) :
    Scanned (bytesOf (memberChars members) ++ (0x7d :: tail))
      (memberTokens members ++ .endObject :: ts) := by
  match members with
  | [] => exact scanned_endObject h
  | [(name, value)] =>
      have hvalue :=
        scanned_chars value hexact.1 (ends_cons (by decide))
          (scanned_endObject h)
      simp only [memberChars, memberTokens, bytesOf_append, bytesOf_cons,
        List.append_assoc, List.cons_append]
      exact scanned_quoted name (scanned_colon hvalue)
  | (name, value) :: next :: rest =>
      have hrest := scanned_memberChars (next :: rest) hexact.2 h
      have hvalue :=
        scanned_chars value hexact.1 (ends_cons (by decide))
          (scanned_comma hrest)
      simp only [memberChars, memberTokens, bytesOf_append, bytesOf_cons,
        List.append_assoc, List.cons_append]
      exact scanned_quoted name (scanned_colon hvalue)

end

/-- The tokens of a value are the tokens of its text. -/
theorem scan_render (v : Json) (hexact : v.Exact) :
    Token.scan (Utf8.encode v.render) = v.tokens := by
  have h := scanned_chars v hexact ends_nil scanned_nil
  rw [List.append_nil, List.append_nil] at h
  rw [render, encode_ofList]
  exact scan_of_scanned h

end DidVault.Json
