import DidVault.Text.Utf8
import Mathlib.Tactic.SplitIfs

/-!
# Reading back what was written in UTF-8

`decode_encode` says that every text is read back from its bytes.  Byte for
byte, this is the statement `decodeFrom_encodeChar` on one character in front of
any other bytes: each of the four widths has a lemma of its own that says what
its leading byte allows.  `encode_of_decode` is the converse: no other bytes are
read as that text, since overlong forms are refused.  A text begins with another
one exactly if its bytes do (`encode_prefix_iff`).
-/

namespace DidVault.Utf8

/-- A byte holds the numbers below 256. -/
theorem toNat_ofNat {n : Nat} (h : n < 256) : (UInt8.ofNat n).toNat = n := by
  simp only [UInt8.toNat_ofNat']
  omega

/-- The first byte of two. -/
theorem lead_of_two {b : UInt8} (h₁ : 0xc2 ≤ b.toNat) (h₂ : b.toNat ≤ 0xdf) :
    lead b = some (2, 0x80, 0xbf) := by
  have h : (0xc2 ≤ b && b ≤ 0xdf) = true := by
    simp only [Bool.and_eq_true, decide_eq_true_eq, UInt8.le_iff_toNat_le]
    exact ⟨h₁, h₂⟩
  simp only [lead, h, if_true]

/-- The leading byte of a character of three bytes, with a second byte that it
allows. -/
theorem lead_of_three {b : UInt8} {m : Nat} (h₁ : 0xe0 ≤ b.toNat)
    (h₂ : b.toNat ≤ 0xef) (hm : 0x80 ≤ m ∧ m ≤ 0xbf)
    (hlow : b.toNat = 0xe0 → 0xa0 ≤ m) (hhigh : b.toNat = 0xed → m ≤ 0x9f) :
    ∃ low high : UInt8, lead b = some (3, low, high) ∧ low.toNat ≤ m ∧
      m ≤ high.toNat := by
  have hlt : ¬ (0xc2 ≤ b.toNat ∧ b.toNat ≤ 0xdf) := by omega
  by_cases he0 : b = 0xe0
  · subst he0
    exact ⟨0xa0, 0xbf, by decide, hlow rfl, hm.2⟩
  · by_cases hed : b = 0xed
    · subst hed
      exact ⟨0x80, 0x9f, by decide, hm.1, hhigh rfl⟩
    · refine ⟨0x80, 0xbf, ?_, hm.1, hm.2⟩
      have hne : b.toNat ≠ 0xe0 := fun h => he0 (UInt8.toNat_inj.mp h)
      have h : (0xe1 ≤ b && b ≤ 0xef) = true := by
        simp only [Bool.and_eq_true, decide_eq_true_eq, UInt8.le_iff_toNat_le]
        show 0xe1 ≤ b.toNat ∧ b.toNat ≤ 0xef
        omega
      have hno : (0xc2 ≤ b && b ≤ 0xdf) = false := by
        simp only [Bool.and_eq_false_iff, decide_eq_false_iff_not,
          UInt8.le_iff_toNat_le]
        show ¬ 0xc2 ≤ b.toNat ∨ ¬ b.toNat ≤ 0xdf
        omega
      simp [lead, hno, he0, hed, h]

/-- The leading byte of a character of four bytes, with a second byte that it
allows. -/
theorem lead_of_four {b : UInt8} {m : Nat} (h₁ : 0xf0 ≤ b.toNat)
    (h₂ : b.toNat ≤ 0xf4) (hm : 0x80 ≤ m ∧ m ≤ 0xbf)
    (hlow : b.toNat = 0xf0 → 0x90 ≤ m) (hhigh : b.toNat = 0xf4 → m ≤ 0x8f) :
    ∃ low high : UInt8, lead b = some (4, low, high) ∧ low.toNat ≤ m ∧
      m ≤ high.toNat := by
  have hcases : b.toNat = 0xf0 ∨ b.toNat = 0xf1 ∨ b.toNat = 0xf2 ∨
      b.toNat = 0xf3 ∨
      b.toNat = 0xf4 := by omega
  have hb : ∀ c : UInt8, b.toNat = c.toNat → b = c :=
    fun c h => UInt8.toNat_inj.mp h
  rcases hcases with h | h | h | h | h
  · obtain rfl := hb 0xf0 h
    exact ⟨0x90, 0xbf, by decide, hlow rfl, hm.2⟩
  · obtain rfl := hb 0xf1 h
    exact ⟨0x80, 0xbf, by decide, hm⟩
  · obtain rfl := hb 0xf2 h
    exact ⟨0x80, 0xbf, by decide, hm⟩
  · obtain rfl := hb 0xf3 h
    exact ⟨0x80, 0xbf, by decide, hm⟩
  · obtain rfl := hb 0xf4 h
    exact ⟨0x80, 0x8f, by decide, hm.1, hhigh rfl⟩

/-- A byte of a longer sequence is not one of ASCII. -/
theorem not_lt_0x80 {b : UInt8} (h : 0x80 ≤ b.toNat) : ¬ b < 0x80 := by
  rw [UInt8.lt_iff_toNat_lt]
  exact Nat.not_lt.mpr h

/-- A byte between two others is in their range. -/
theorem inside {b low high : UInt8} (h₁ : low.toNat ≤ b.toNat)
    (h₂ : b.toNat ≤ high.toNat) :
    (b < low || high < b) = false := by
  simp only [Bool.or_eq_false_iff, decide_eq_false_iff_not,
    UInt8.lt_iff_toNat_lt]
  omega

/-- The bytes that continue a sequence. -/
theorem isContinuation_of {b : UInt8} (h : 0x80 ≤ b.toNat ∧ b.toNat ≤ 0xbf) :
    isContinuation b = true := by
  simp only [isContinuation, Bool.and_eq_true, decide_eq_true_eq,
    UInt8.le_iff_toNat_le]
  exact h

/-- A character in front of other bytes is the first one that is read. -/
theorem decodeFrom_encodeChar (index : Nat) (c : Char) (rest : Bytes) :
    decodeFrom index (String.utf8EncodeChar c ++ rest) =
      (c :: ·) <$>
        decodeFrom (index + (String.utf8EncodeChar c).length) rest := by
  have hv : c.val.toNat < 0xd800 ∨ 0xdfff < c.val.toNat ∧
      c.val.toNat < 0x110000 := c.valid
  have hc : Char.ofNat c.val.toNat = c := Char.ofNat_toNat c
  rw [String.utf8EncodeChar]
  generalize c.val.toNat = n at *
  -- one case for each number of bytes
  split_ifs with h₁ h₂ h₃
  · have hx : (UInt8.ofNat n).toNat = n := toNat_ofNat (by omega)
    have hb : UInt8.ofNat n < 0x80 := by
      rw [UInt8.lt_iff_toNat_lt, hx]
      exact Nat.lt_succ_of_le h₁
    simp only [List.cons_append, List.nil_append, List.length_cons,
      List.length_nil, decodeFrom]
    rw [if_pos hb, hx, hc]
  · have hx : (UInt8.ofNat (n / 64 % 32 + 192)).toNat = n / 64 % 32 + 192 :=
      toNat_ofNat (by omega)
    have hy : (UInt8.ofNat (n % 64 + 128)).toNat = n % 64 + 128 :=
      toNat_ofNat (by omega)
    generalize UInt8.ofNat (n / 64 % 32 + 192) = b at *
    generalize UInt8.ofNat (n % 64 + 128) = d at *
    have hval : b.toNat % 32 * 64 + payload d = n := by
      rw [payload, hx, hy]
      omega
    have hlead := lead_of_two (b := b) (by omega) (by omega)
    have hd : (d < 0x80 || 0xbf < d) = false :=
      inside (by simp; omega) (by simp; omega)
    simp only [List.cons_append, List.nil_append, List.length_cons,
      List.length_nil, decodeFrom, if_neg (not_lt_0x80 (b := b) (by omega)),
      hlead, hd, hval, hc]
    rfl
  · have hx : (UInt8.ofNat (n / 4096 % 16 + 224)).toNat = n / 4096 % 16 + 224 :=
      toNat_ofNat (by omega)
    have hy : (UInt8.ofNat (n / 64 % 64 + 128)).toNat = n / 64 % 64 + 128 :=
      toNat_ofNat (by omega)
    have hz : (UInt8.ofNat (n % 64 + 128)).toNat = n % 64 + 128 :=
      toNat_ofNat (by omega)
    generalize UInt8.ofNat (n / 4096 % 16 + 224) = b at *
    generalize UInt8.ofNat (n / 64 % 64 + 128) = d at *
    generalize UInt8.ofNat (n % 64 + 128) = e at *
    have hval : (b.toNat % 16 * 64 + payload d) * 64 + payload e = n := by
      rw [payload, payload, hx, hy, hz]
      omega
    obtain ⟨low, high, hlead, hlow, hhigh⟩ :=
      lead_of_three (b := b) (m := d.toNat)
        (by omega) (by omega) (by omega) (by omega) (by omega)
    have he := isContinuation_of (b := e) (by omega)
    simp only [List.cons_append, List.nil_append, List.length_cons,
      List.length_nil, decodeFrom, if_neg (not_lt_0x80 (b := b) (by omega)),
      hlead, inside hlow hhigh, he, hval, hc]
    rfl
  · have hx : (UInt8.ofNat (n / 262144 % 8 + 240)).toNat =
        n / 262144 % 8 + 240 :=
      toNat_ofNat (by omega)
    have hw : (UInt8.ofNat (n / 4096 % 64 + 128)).toNat = n / 4096 % 64 + 128 :=
      toNat_ofNat (by omega)
    have hy : (UInt8.ofNat (n / 64 % 64 + 128)).toNat = n / 64 % 64 + 128 :=
      toNat_ofNat (by omega)
    have hz : (UInt8.ofNat (n % 64 + 128)).toNat = n % 64 + 128 :=
      toNat_ofNat (by omega)
    generalize UInt8.ofNat (n / 262144 % 8 + 240) = b at *
    generalize UInt8.ofNat (n / 4096 % 64 + 128) = d at *
    generalize UInt8.ofNat (n / 64 % 64 + 128) = e at *
    generalize UInt8.ofNat (n % 64 + 128) = f at *
    have hval : ((b.toNat % 8 * 64 + payload d) * 64 + payload e) * 64 +
        payload f = n := by
      rw [payload, payload, payload, hx, hw, hy, hz]
      omega
    obtain ⟨low, high, hlead, hlow, hhigh⟩ :=
      lead_of_four (b := b) (m := d.toNat)
        (by omega) (by omega) (by omega) (by omega) (by omega)
    have he := isContinuation_of (b := e) (by omega)
    have hf := isContinuation_of (b := f) (by omega)
    simp only [List.cons_append, List.nil_append, List.length_cons,
      List.length_nil, decodeFrom, if_neg (not_lt_0x80 (b := b) (by omega)),
      hlead, inside hlow hhigh, he, hf, hval, hc]
    rfl

/-- Characters in front of other bytes are read before them. -/
theorem decodeFrom_append (index : Nat) (cs : List Char) (rest : Bytes) :
    decodeFrom index (cs.flatMap String.utf8EncodeChar ++ rest) =
      (cs ++ ·) <$>
        decodeFrom (index + (cs.flatMap String.utf8EncodeChar).length)
          rest := by
  induction cs generalizing index with
  | nil => simp
  | cons c cs ih =>
      rw [List.flatMap_cons, List.append_assoc, decodeFrom_encodeChar, ih,
        List.length_append, Nat.add_assoc]
      cases decodeFrom (index + _) rest <;> rfl

/-- The encoding of characters is decoded again. -/
theorem decodeFrom_encode (index : Nat) (cs : List Char) :
    decodeFrom index (cs.flatMap String.utf8EncodeChar) = .ok cs := by
  have happend := decodeFrom_append index cs []
  rw [List.append_nil, decodeFrom] at happend
  rw [happend]
  exact congrArg Except.ok (List.append_nil cs)

/-- The bytes of some characters begin the bytes of others only if the
characters do. -/
theorem flatMap_prefix_iff {cs ds : List Char} :
    cs.flatMap String.utf8EncodeChar <+: ds.flatMap String.utf8EncodeChar ↔
      cs <+: ds := by
  constructor
  · intro h
    obtain ⟨rest, hrest⟩ := h
    have hread := decodeFrom_encode 0 ds
    rw [← hrest, decodeFrom_append] at hread
    cases htail : decodeFrom
      (0 + (cs.flatMap String.utf8EncodeChar).length) rest with
    | error fault =>
        rw [htail] at hread
        cases hread
    | ok tail =>
        rw [htail] at hread
        exact ⟨tail, Except.ok.inj hread⟩
  · intro h
    obtain ⟨tail, htail⟩ := h
    refine ⟨tail.flatMap String.utf8EncodeChar, ?_⟩
    rw [← List.flatMap_append, htail]

/-- Encodings begin each other as the texts do. -/
theorem encode_prefix_iff {a b : String} :
    encode a <+: encode b ↔ a.toList <+: b.toList :=
  flatMap_prefix_iff

/-- The encoding of two texts is that of the first and that of the second. -/
theorem encode_append (a b : String) :
    encode (a ++ b) = encode a ++ encode b := by
  rw [encode, String.toList_append, List.flatMap_append]
  rfl

/-- Every text is read back from its bytes. -/
@[simp] theorem decode_encode (text : String) :
    decode (encode text) = .ok text := by
  rw [decode, encode, decodeFrom_encode]
  show Except.ok (String.ofList text.toList) = _
  rw [String.ofList_toList]

/-- Different texts have different bytes. -/
theorem encode_injective {a b : String} (h : encode a = encode b) : a = b := by
  have ha := decode_encode a
  rw [h, decode_encode] at ha
  exact (Except.ok.inj ha).symm

/-- Texts with the same encoding are the same. -/
theorem encode_inj {a b : String} : encode a = encode b ↔ a = b :=
  ⟨encode_injective, congrArg encode⟩

/-- A character has the number that it was made of. -/
theorem val_ofNat {n : Nat} (h : n.isValidChar) :
    (Char.ofNat n).val.toNat = n := by
  rw [Char.ofNat, dif_pos h]
  rfl

/-- What the leading byte of a longer character says about it. -/
theorem lead_cases {b low high : UInt8} {width : Nat}
    (h : lead b = some (width, low, high)) :
    (width = 2 ∧ 0xc2 ≤ b.toNat ∧ b.toNat ≤ 0xdf ∧ low.toNat = 0x80 ∧
      high.toNat = 0xbf) ∨
    (width = 3 ∧ 0xe0 ≤ b.toNat ∧ b.toNat ≤ 0xef ∧ 0x80 ≤ low.toNat ∧
      high.toNat ≤ 0xbf ∧
      (b.toNat = 0xe0 → low.toNat = 0xa0) ∧
      (b.toNat = 0xed → high.toNat = 0x9f)) ∨
    (width = 4 ∧ 0xf0 ≤ b.toNat ∧ b.toNat ≤ 0xf4 ∧ 0x80 ≤ low.toNat ∧
      high.toNat ≤ 0xbf ∧
      (b.toNat = 0xf0 → low.toNat = 0x90) ∧
      (b.toNat = 0xf4 → high.toNat = 0x8f)) := by
  simp only [lead, Bool.and_eq_true, decide_eq_true_eq, beq_iff_eq,
    UInt8.le_iff_toNat_le, ← UInt8.toNat_inj] at h
  split_ifs at h <;> cases h <;> simp at * <;> omega

/-- How many bytes a character has, and which, by its number. -/
theorem encodeChar_ofNat {n : Nat} (h : n.isValidChar) :
    String.utf8EncodeChar (Char.ofNat n) =
      if n ≤ 127 then [UInt8.ofNat n]
      else if n ≤ 2047 then
        [UInt8.ofNat (n / 64 % 32 + 192), UInt8.ofNat (n % 64 + 128)]
      else if n ≤ 65535 then
        [UInt8.ofNat (n / 4096 % 16 + 224), UInt8.ofNat (n / 64 % 64 + 128),
          UInt8.ofNat (n % 64 + 128)]
      else
        [UInt8.ofNat (n / 262144 % 8 + 240), UInt8.ofNat (n / 4096 % 64 + 128),
          UInt8.ofNat (n / 64 % 64 + 128), UInt8.ofNat (n % 64 + 128)] := by
  rw [String.utf8EncodeChar, val_ofNat h]

/-- The bytes of a character are its number, if it is one of the first hundred
and twenty-eight, and are no such numbers otherwise. -/
theorem of_mem_encodeChar {b : UInt8} {c : Char}
    (hb : b ∈ String.utf8EncodeChar c) :
    b.toNat = c.toNat ∨ 0x80 ≤ b.toNat := by
  have hc : c.toNat = c.val.toNat := rfl
  have hv : c.val.toNat < 0xd800 ∨ 0xdfff < c.val.toNat ∧
      c.val.toNat < 0x110000 := c.valid
  rw [hc]
  rw [String.utf8EncodeChar] at hb
  generalize c.val.toNat = n at *
  split_ifs at hb with h₁ h₂ h₃
  · obtain rfl := List.mem_singleton.mp hb
    exact .inl (toNat_ofNat (by omega))
  all_goals
    right
    simp only [List.mem_cons, List.not_mem_nil, or_false] at hb
  · rcases hb with rfl | rfl <;> rw [toNat_ofNat (by omega)] <;> omega
  · rcases hb with rfl | rfl | rfl <;> rw [toNat_ofNat (by omega)] <;> omega
  · rcases hb with rfl | rfl | rfl | rfl <;>
      rw [toNat_ofNat (by omega)] <;> omega

/-- A byte is the one of its number. -/
theorem eq_ofNat {b : UInt8} {n : Nat} (h : n = b.toNat) :
    UInt8.ofNat n = b := by
  rw [h, UInt8.ofNat_toNat]

/-- What is not outside a range is inside. -/
theorem not_inside {b low high : UInt8} (h : ¬ (b < low || high < b) = true) :
    low.toNat ≤ b.toNat ∧ b.toNat ≤ high.toNat := by
  simp only [Bool.or_eq_true, decide_eq_true_eq, UInt8.lt_iff_toNat_lt] at h
  omega

/-- What does not fail to continue a sequence continues it. -/
theorem of_isContinuation {b : UInt8} (h : ¬ (!isContinuation b) = true) :
    0x80 ≤ b.toNat ∧ b.toNat ≤ 0xbf := by
  simpa [isContinuation, UInt8.le_iff_toNat_le] using h

/-- Only the bytes of a text are read as that text. -/
theorem encode_of_decodeFrom {index : Nat} {bytes : Bytes} {cs : List Char}
    (h : decodeFrom index bytes = .ok cs) :
    cs.flatMap String.utf8EncodeChar = bytes := by
  have hmap : ∀ {c : Char} {x : Except Fault (List Char)} {cs : List Char},
      (c :: ·) <$> x = .ok cs → ∃ rest, x = .ok rest ∧ cs = c :: rest := by
    rintro c (_ | rest) cs h
    · cases h
    · cases h
      exact ⟨rest, rfl, rfl⟩
  fun_induction decodeFrom index bytes generalizing cs with
  | case1 => cases h; rfl
  | case2 index b rest hb ih =>
      obtain ⟨tail, htail, rfl⟩ := hmap h
      rw [UInt8.lt_iff_toNat_lt] at hb
      change b.toNat < 128 at hb
      rw [List.flatMap_cons, ih htail, encodeChar_ofNat (.inl (by omega)),
        if_pos (by omega), eq_ofNat rfl]
      rfl
  | case3 => cases h
  | case4 => cases h
  | case5 => cases h
  | case6 index b hb low high c rest hrange hlead ih =>
      obtain ⟨tail, htail, rfl⟩ := hmap h
      have hb := lead_cases hlead
      have hc := not_inside hrange
      have hvalid : (b.toNat % 32 * 64 + payload c).isValidChar :=
        .inl (by rw [payload]; omega)
      rw [List.flatMap_cons, ih htail, encodeChar_ofNat hvalid, payload,
        if_neg (by omega), if_pos (by omega), eq_ofNat (b := b) (by omega),
        eq_ofNat (b := c) (by omega)]
      rfl
  | case7 => cases h
  | case8 => cases h
  | case9 index b hb low high c hrange d rest hd hlead hw ih =>
      obtain ⟨tail, htail, rfl⟩ := hmap h
      have hb := lead_cases hlead
      have hc := not_inside hrange
      have hd := of_isContinuation hd
      have hvalid :
          ((b.toNat % 16 * 64 + payload c) * 64 + payload d).isValidChar := by
        rw [Nat.isValidChar, payload, payload]
        omega
      rw [List.flatMap_cons, ih htail, encodeChar_ofNat hvalid,
        payload, payload, if_neg (by omega), if_neg (by omega),
        if_pos (by omega), eq_ofNat (b := b) (by omega),
        eq_ofNat (b := c) (by omega), eq_ofNat (b := d) (by omega)]
      rfl
  | case10 => cases h
  | case11 => cases h
  | case12 index b hb width low high hlead c hrange hw d hd hw' e rest he ih =>
      obtain ⟨tail, htail, rfl⟩ := hmap h
      have hb := lead_cases hlead
      have hc := not_inside hrange
      have hd := of_isContinuation hd
      have he := of_isContinuation he
      have hvalid : (((b.toNat % 8 * 64 + payload c) * 64 + payload d) * 64
          + payload e).isValidChar := by
        rw [Nat.isValidChar, payload, payload, payload]
        omega
      rw [List.flatMap_cons, ih htail, encodeChar_ofNat hvalid, payload,
        payload, payload, if_neg (by omega), if_neg (by omega),
        if_neg (by omega), eq_ofNat (b := b) (by omega),
        eq_ofNat (b := c) (by omega), eq_ofNat (b := d) (by omega),
        eq_ofNat (b := e) (by omega)]
      rfl

/-- Bytes that are read as a text are its bytes. -/
theorem encode_of_decode {bytes : Bytes} {text : String}
    (h : decode bytes = .ok text) : encode text = bytes := by
  rw [decode] at h
  rcases hread : decodeFrom 0 bytes with _ | cs
  · rw [hread] at h
    cases h
  · rw [hread] at h
    cases h
    rw [encode, String.toList_ofList]
    exact encode_of_decodeFrom hread

/-- Exactly the encoding of a text is decoded to it. -/
theorem decode_eq_ok_iff {bytes : Bytes} {text : String} :
    decode bytes = .ok text ↔ bytes = encode text := by
  constructor
  · intro h
    exact (encode_of_decode h).symm
  · intro h
    rw [h, decode_encode]

end DidVault.Utf8
