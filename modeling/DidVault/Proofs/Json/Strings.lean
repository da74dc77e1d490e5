import DidVault.Json.Printer
import DidVault.Json.Token
import DidVault.Proofs.Text.Utf8

/-!
# Scanning texts between quotes

What the printer writes between quotes is scanned back to the same text.
`TextScan` says what the scanner makes of the rest of a text when some bytes of
it have been read; every character that the printer writes, escaped or not, adds
its own bytes to these (`TextScan.char`).
-/

namespace DidVault.Json

/-- The bytes of a list of characters. -/
def bytesOf (cs : List Char) : Bytes :=
  cs.flatMap String.utf8EncodeChar

@[simp] theorem bytesOf_nil : bytesOf [] = [] := rfl

theorem bytesOf_cons (c : Char) (cs : List Char) :
    bytesOf (c :: cs) = String.utf8EncodeChar c ++ bytesOf cs := rfl

/-- The bytes of two lists of characters follow one another. -/
theorem bytesOf_append (cs ds : List Char) :
    bytesOf (cs ++ ds) = bytesOf cs ++ bytesOf ds :=
  List.flatMap_append

/-- A text's encoding is the bytes of its characters. -/
theorem encode_ofList (cs : List Char) :
    Utf8.encode (String.ofList cs) = bytesOf cs := by
  rw [Utf8.encode, String.toList_ofList, bytesOf]

theorem encode_eq_bytesOf (s : String) : Utf8.encode s = bytesOf s.toList := rfl

/-- Behind `content`, whose last byte stands first, the scanner finds the end of
a text that has the value `s`, and `tail` behind it. -/
def TextScan (content bytes : Bytes) (s : String) (tail : Bytes) : Prop :=
  tail.length < bytes.length ∧
    ∀ fuel, bytes.length < fuel →
    scanText fuel content none bytes = (.string (.ok s), tail)

namespace TextScan

variable {content more bytes rest tail : Bytes} {s : String} {c : Char}

/-- At the closing quote the bytes read so far are the text. -/
theorem close (s : String) (tail : Bytes) :
    TextScan (Utf8.encode s).reverse (0x22 :: tail) s tail := by
  refine ⟨by simp, fun fuel hfuel => ?_⟩
  cases fuel with
  | zero => cases hfuel
  | succ fuel =>
      have hpiece : scanPiece (0x22 :: tail) = .close tail := rfl
      have htext : textOf (Utf8.encode s) = .ok s := by
        rw [textOf, Utf8.decode_encode]
      rw [scanText, hpiece]
      simp only [List.reverse_reverse, htext]

/-- A piece of the content is put to the bytes read so far. -/
theorem piece (hpiece : scanPiece bytes = .content more rest)
    (hshort : rest.length < bytes.length)
    (hrest : TextScan (more.reverse ++ content) rest s tail) :
    TextScan content bytes s tail := by
  refine ⟨by have := hrest.1; omega, fun fuel hfuel => ?_⟩
  cases fuel with
  | zero => omega
  | succ fuel =>
      rw [scanText, hpiece]
      exact hrest.2 fuel (by omega)

/-- A byte that means nothing special between quotes. -/
def Ordinary (b : UInt8) : Prop :=
  0x20 ≤ b.toNat ∧ b ≠ 0x22 ∧ b ≠ 0x5c

/-- An ordinary byte stands for itself. -/
theorem scanPiece_of_ordinary {b : UInt8} (hb : Ordinary b) :
    scanPiece (b :: rest) = .content [b] rest := by
  obtain ⟨hcontrol, hquote, hslash⟩ := hb
  have hlt : ¬ b < 0x20 := by
    rw [UInt8.lt_iff_toNat_lt]
    exact Nat.not_lt.mpr hcontrol
  rw [scanPiece, if_neg hquote, if_neg hlt, if_neg hslash]

/-- Ordinary bytes stand for themselves. -/
theorem ordinary (hmore : ∀ b ∈ more, Ordinary b)
    (hrest : TextScan (more.reverse ++ content) rest s tail) :
    TextScan content (more ++ rest) s tail := by
  induction more generalizing content with
  | nil => exact hrest
  | cons b more ih =>
      have hb := hmore b (List.mem_cons_self ..)
      refine piece (scanPiece_of_ordinary hb) (by simp) (ih (fun d hd => ?_) ?_)
      · exact hmore d (List.mem_cons_of_mem _ hd)
      · simpa using hrest

/-- The bytes of a character that needs no escape are ordinary. -/
theorem ordinary_of_mem {b : UInt8} (hcontrol : ¬ c.toNat < 0x20)
    (hquote : c ≠ '"') (hslash : c ≠ '\\') (hb : b ∈ String.utf8EncodeChar c) :
    Ordinary b := by
  rcases Utf8.of_mem_encodeChar hb with heq | hlarge
  · refine ⟨by omega, fun h => hquote ?_, fun h => hslash ?_⟩
    · exact Char.toNat_inj.mp (heq.symm.trans (congrArg UInt8.toNat h))
    · exact Char.toNat_inj.mp (heq.symm.trans (congrArg UInt8.toNat h))
  · refine ⟨by omega, ?_, ?_⟩
    · rintro rfl
      exact absurd hlarge (by decide)
    · rintro rfl
      exact absurd hlarge (by decide)

/-- The escape of a control character by its number. -/
theorem numbered {n : Nat} (hn : n < 0x20) :
    ∃ x y : UInt8,
      bytesOf ['\\', 'u', '0', '0', if n < 0x10 then '0' else '1',
        Nat.digitChar (n % 16)] = [0x5c, 0x75, 0x30, 0x30, x, y] ∧
      hexEscape? 0x30 0x30 x y = some n := by
  refine ⟨if n < 0x10 then 0x30 else 0x31,
    (String.utf8EncodeChar (Nat.digitChar (n % 16))).headD 0, ?_⟩
  revert n
  decide

/-- A control character is escaped by its code. -/
theorem scanPiece_of_control (hc : c.toNat < 0x20) :
    scanPiece (bytesOf
        ['\\', 'u', '0', '0', if c.toNat < 0x10 then '0' else '1',
          Nat.digitChar (c.toNat % 16)] ++ rest) =
      .content (String.utf8EncodeChar c) rest := by
  obtain ⟨x, y, hbytes, hvalue⟩ := numbered hc
  have htrailing : isTrailing c.toNat = false := by
    simp only [isTrailing, Bool.and_eq_false_iff, decide_eq_false_iff_not]
    omega
  have hleading : isLeading c.toNat = false := by
    simp only [isLeading, Bool.and_eq_false_iff, decide_eq_false_iff_not]
    omega
  have hcode : codePoint c.toNat = String.utf8EncodeChar c := by
    rw [codePoint, Char.ofNat_toNat]
  rw [hbytes]
  show numberedPiece (0x30 :: 0x30 :: x :: y :: rest) = _
  simp only [numberedPiece, hvalue, htrailing, hleading, hcode,
    Bool.false_eq_true, if_false]

/-- A character that the printer writes adds its bytes to those read so far. -/
theorem char
    (hrest : TextScan ((String.utf8EncodeChar c).reverse ++ content)
      rest s tail) :
    TextScan content (bytesOf (escapeChar c) ++ rest) s tail := by
  unfold escapeChar
  split
  case h_8 hquote hslash _ _ _ _ _ =>
    by_cases hcontrol : c.toNat < 0x20
    · rw [if_pos hcontrol]
      refine piece (scanPiece_of_control hcontrol) ?_ hrest
      obtain ⟨x, y, hbytes, -⟩ := numbered hcontrol
      simp only [hbytes, List.length_append, List.length_cons]
      omega
    · rw [if_neg hcontrol]
      have hplain : bytesOf [c] = String.utf8EncodeChar c :=
        List.flatMap_singleton ..
      rw [hplain]
      exact ordinary
        (fun b hb => ordinary_of_mem hcontrol hquote hslash hb) hrest
  -- each of the other escapes has a letter of its own
  all_goals
    refine piece ?_ ?_ hrest
    · rfl
    · rw [List.length_append]
      exact Nat.lt_add_of_pos_left (by decide)

/-- The characters left to read add their bytes to those read before. -/
theorem chars (s : String) (tail : Bytes) (done cs : List Char)
    (hs : s.toList = done ++ cs) :
    TextScan (bytesOf done).reverse
      (bytesOf (cs.flatMap escapeChar) ++ 0x22 :: tail) s tail := by
  induction cs generalizing done with
  | nil =>
      have hdone : bytesOf done = Utf8.encode s := by
        rw [encode_eq_bytesOf, hs, List.append_nil]
      rw [hdone]
      exact close s tail
  | cons c cs ih =>
      rw [List.flatMap_cons, bytesOf_append, List.append_assoc]
      have hnext := ih (done ++ [c]) (by rw [hs, List.append_assoc]; rfl)
      rw [bytesOf_append, List.reverse_append, bytesOf_cons, bytesOf_nil,
        List.append_nil] at hnext
      exact char hnext

end TextScan

/-- A quoted text is scanned back to the text. -/
theorem scanToken_quoted (s : String) (tail : Bytes) :
    ∃ rest, bytesOf (quoted s) ++ tail = 0x22 :: rest ∧
      tail.length ≤ rest.length ∧
      scanToken 0x22 rest = (.string (.ok s), tail) := by
  refine ⟨bytesOf (s.toList.flatMap escapeChar) ++ 0x22 :: tail, ?_, ?_, ?_⟩
  · have hquote : String.utf8EncodeChar '"' = [0x22] := by decide
    simp [quoted, bytesOf_cons, bytesOf_append, hquote]
  · have := (TextScan.chars s tail [] s.toList rfl).1
    omega
  · exact (TextScan.chars s tail [] s.toList rfl).2 _ (Nat.lt_succ_self _)

end DidVault.Json
