import DidVault.Proofs.Json.Strings
import DidVault.Text.Slice

/-!
# Pieces between characters

The bytes in front of some characters of a text are counted by the bytes of
those characters, so every list of characters that a text begins with is a place
in it.  At such places the text can be cut (`Utf8.isBoundary_front`), and the
pieces between them are the characters between them (`Utf8.slice?_middle`).
-/

namespace DidVault.Utf8

open Json

/-- The first byte of a character continues no other one. -/
theorem encodeChar_cons (c : Char) :
    ∃ b bs, String.utf8EncodeChar c = b :: bs ∧ isContinuation b = false := by
  have hv : c.val.toNat < 0xd800 ∨ 0xdfff < c.val.toNat ∧
      c.val.toNat < 0x110000 := c.valid
  have hbyte : ∀ n, n < 256 → ¬ (0x80 ≤ n ∧ n ≤ 0xbf) →
      isContinuation (UInt8.ofNat n) = false := by
    intro n hn hout
    rw [Bool.eq_false_iff, isContinuation, Ne, Bool.and_eq_true,
      decide_eq_true_eq, decide_eq_true_eq, UInt8.le_iff_toNat_le,
      UInt8.le_iff_toNat_le, toNat_ofNat hn]
    exact hout
  rw [String.utf8EncodeChar]
  generalize c.val.toNat = n at *
  split_ifs with h₁ h₂ h₃
  all_goals exact ⟨_, _, rfl, hbyte _ (by omega) (by omega)⟩

/-- A text can be cut between any two characters. -/
theorem isBoundary_front (front behind : List Char) :
    isBoundary (bytesOf (front ++ behind)) (bytesOf front).length = true := by
  rw [isBoundary, bytesOf_append, List.getElem?_append_right (Nat.le_refl _),
    Nat.sub_self]
  cases behind with
  | nil => simp
  | cons c cs =>
      obtain ⟨b, bs, hc, hb⟩ := encodeChar_cons c
      rw [bytesOf_cons, hc]
      simp [hb]

/-- The piece between two such places is what stands between them. -/
theorem slice?_middle (front middle behind : List Char) :
    slice? (bytesOf (front ++ (middle ++ behind))) (bytesOf front).length
      (bytesOf (front ++ middle)).length = some (String.ofList middle) := by
  have hstart := isBoundary_front front (middle ++ behind)
  have hstop := isBoundary_front (front ++ middle) behind
  rw [List.append_assoc] at hstop
  have hle : (bytesOf front).length ≤ (bytesOf (front ++ middle)).length := by
    simp [bytesOf_append]
  have hpiece : ((bytesOf (front ++ (middle ++ behind))).take
      (bytesOf (front ++ middle)).length).drop (bytesOf front).length =
        bytesOf middle := by
    rw [← List.append_assoc, bytesOf_append (front ++ middle), List.take_left,
      bytesOf_append, List.drop_left]
  have hread : decode (bytesOf middle) = .ok (String.ofList middle) := by
    rw [← encode_ofList, decode_encode]
  rw [slice?, hstart, hstop, hpiece, hread]
  simp [hle, Except.toOption]

/-- The piece from such a place on is what stands behind it. -/
theorem slice?_behind (front behind : List Char) :
    slice? (bytesOf (front ++ behind)) (bytesOf front).length
      (bytesOf (front ++ behind)).length = some (String.ofList behind) := by
  simpa using slice?_middle front behind []

end DidVault.Utf8
