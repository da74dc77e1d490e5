import DidVault.Json.Reader
import DidVault.Proofs.Json.Tokens

/-!
# The tokens of indented text

The indented text of a value has blanks between its tokens and nothing else
besides, so that the same tokens are found in it as in the text without blanks
(`scan_pretty`).
-/

namespace DidVault.Json

variable {rest : Bytes} {ts : List Token}

/-- A new line and its indentation are passed over. -/
theorem scanned_newLine (level : Nat) (h : Scanned rest ts) :
    Scanned (bytesOf (newLine level) ++ rest) ts := by
  have hblanks : ∀ n, Scanned (bytesOf (List.replicate n ' ') ++ rest) ts := by
    intro n
    induction n with
    | zero => exact h
    | succ n ih => exact .blank rfl ih
  exact .blank rfl (hblanks (2 * level))

/-- No number goes on in a new line. -/
theorem ends_newLine (level : Nat) (rest : Bytes) :
    Ends (bytesOf (newLine level) ++ rest) :=
  ends_cons (by decide)

mutual

/-- The tokens of a value are found in its indented text, if what follows is no
part of a number. -/
theorem scanned_prettyChars (level : Nat) (v : Json) {tail : Bytes}
    {ts : List Token} (hexact : v.Exact) (htail : Ends tail)
    (h : Scanned tail ts) :
    Scanned (bytesOf (v.prettyChars level) ++ tail) (v.tokens ++ ts) := by
  match v with
  | null => exact scanned_chars null hexact htail h
  | bool b => exact scanned_chars (bool b) hexact htail h
  | number n => exact scanned_chars (number n) hexact htail h
  | string s => exact scanned_chars (string s) hexact htail h
  | array [] => exact scanned_chars (array []) hexact htail h
  | object [] => exact scanned_chars (object []) hexact htail h
  | array (item :: items) =>
      have hclosed := scanned_newLine level (scanned_endArray h)
      have hitems := scanned_prettyItems (level + 1) (item :: items) hexact
        (ends_newLine level _) hclosed
      simp only [prettyChars, tokens, bytesOf_cons, bytesOf_append,
        List.cons_append, List.append_assoc]
      exact .cons rfl rfl (Nat.le_refl _) hitems
  | object (member :: members) =>
      have hclosed := scanned_newLine level (scanned_endObject h)
      have hmembers :=
        scanned_prettyMembers (level + 1) (member :: members) hexact
          (ends_newLine level _) hclosed
      simp only [prettyChars, tokens, bytesOf_cons, bytesOf_append,
        List.cons_append, List.append_assoc]
      exact .cons rfl rfl (Nat.le_refl _) hmembers

/-- The tokens of items on lines of their own. -/
theorem scanned_prettyItems (level : Nat) (items : List Json) {tail : Bytes}
    {ts : List Token} (hexact : ExactItems items) (htail : Ends tail)
    (h : Scanned tail ts) :
    Scanned (bytesOf (prettyItems level items) ++ tail)
      (itemTokens items ++ ts) := by
  match items with
  | [] => exact h
  | [item] =>
      have hitem := scanned_prettyChars level item hexact.1 htail h
      simp only [prettyItems, itemTokens, bytesOf_append, List.append_assoc]
      exact scanned_newLine level hitem
  | item :: next :: rest =>
      have hrest := scanned_prettyItems level (next :: rest) hexact.2 htail h
      have hitem :=
        scanned_prettyChars level item hexact.1 (ends_cons (by decide))
          (scanned_comma hrest)
      simp only [prettyItems, itemTokens, bytesOf_append, bytesOf_cons,
        List.append_assoc, List.cons_append]
      exact scanned_newLine level hitem

/-- The tokens of members on lines of their own. -/
theorem scanned_prettyMembers (level : Nat) (members : List (String × Json))
    {tail : Bytes} {ts : List Token} (hexact : ExactMembers members)
    (htail : Ends tail) (h : Scanned tail ts) :
    Scanned (bytesOf (prettyMembers level members) ++ tail)
      (memberTokens members ++ ts) := by
  match members with
  | [] => exact h
  | [(name, value)] =>
      have hvalue := scanned_prettyChars level value hexact.1 htail h
      simp only [prettyMembers, memberTokens, bytesOf_append, bytesOf_cons,
        List.append_assoc, List.cons_append]
      exact scanned_newLine level
        (scanned_quoted name (scanned_colon (.blank rfl hvalue)))
  | (name, value) :: next :: rest =>
      have hrest := scanned_prettyMembers level (next :: rest) hexact.2 htail h
      have hvalue :=
        scanned_prettyChars level value hexact.1 (ends_cons (by decide))
          (scanned_comma hrest)
      simp only [prettyMembers, memberTokens, bytesOf_append, bytesOf_cons,
        List.append_assoc, List.cons_append]
      exact scanned_newLine level
        (scanned_quoted name (scanned_colon (.blank rfl hvalue)))

end

/-- The tokens of a value are the tokens of its indented text. -/
theorem scan_pretty (v : Json) (hexact : v.Exact) :
    Token.scan (Utf8.encode v.pretty) = v.tokens := by
  have h := scanned_prettyChars 0 v hexact ends_nil scanned_nil
  rw [List.append_nil, List.append_nil] at h
  rw [pretty, encode_ofList]
  exact scan_of_scanned h

/-- What reads the tokens of a value reads its indented text. -/
theorem readAll_pretty {α : Type} {reader : Reader α} {v : Json} {a : α}
    (hexact : v.Exact) (hread : reader v.tokens = .ok (a, [])) :
    readAll reader (Utf8.encode v.pretty) = .ok a := by
  rw [readAll, scan_pretty v hexact, hread]

end DidVault.Json
