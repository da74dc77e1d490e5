import DidVault.Proofs.Json.Strings

/-!
# Scanning whole numbers

The digits of a whole number that fits are scanned back to the number, if what
follows them does not go on with the number (`Ends`).
-/

namespace DidVault.Json

open DecimalStyle

/-- What follows does not go on with a number. -/
def Ends (tail : Bytes) : Prop :=
  ∀ b ∈ tail.head?, isDigit b = false ∧ b ≠ 0x2e ∧ b ≠ 0x65 ∧ b ≠ 0x45

/-- A number may end where the bytes end. -/
theorem ends_nil : Ends [] := by
  intro b hb
  cases hb

/-- A number ends before a byte that cannot continue it. -/
theorem ends_cons {b : UInt8} {rest : Bytes}
    (hb : isDigit b = false ∧ b ≠ 0x2e ∧ b ≠ 0x65 ∧ b ≠ 0x45) :
    Ends (b :: rest) := by
  intro c hc
  obtain rfl := Option.some.inj hc
  exact hb

/-- The digits of a number: there is no zero in front of others, and they write
the number. -/
structure Digits (ds : Bytes) (n : Nat) : Prop where
  isDigit : ∀ d ∈ ds, isDigit d = true
  value : digitsValue ds = n
  lead : ds = [0x30] ∨ ∃ d rest, ds = d :: rest ∧ d ≠ 0x30

/-- One digit. -/
theorem digits_of_lt {n : Nat} (hn : n < 10) :
    Digits (bytesOf (digitsOf n)) n := by
  have hbyte : bytesOf (digitsOf n) = [UInt8.ofNat (48 + n)] ∧
      Json.isDigit (UInt8.ofNat (48 + n)) = true ∧
      digitsValue [UInt8.ofNat (48 + n)] = n := by
    rw [digitsOf, Nat.toDigits_of_lt_base hn]
    revert n
    decide
  obtain ⟨hbytes, hdigit, hvalue⟩ := hbyte
  rw [hbytes]
  refine ⟨fun d hd => ?_, hvalue, ?_⟩
  · obtain rfl := List.mem_singleton.mp hd
    exact hdigit
  · by_cases hzero : UInt8.ofNat (48 + n) = 0x30
    · exact .inl (by rw [hzero])
    · exact .inr ⟨_, [], rfl, hzero⟩

/-- One more digit multiplies the value by ten and adds the digit. -/
theorem digitsValue_append (ds : Bytes) (d : UInt8) :
    digitsValue (ds ++ [d]) = digitsValue ds * 10 + (d.toNat - 48) := by
  rw [digitsValue, List.foldl_append]
  rfl

/-- Every number is written by its digits, one more for each factor of ten. -/
theorem digits_digitsOf (n : Nat) : Digits (bytesOf (digitsOf n)) n := by
  induction n using Nat.strongRecOn with
  | ind n ih =>
      by_cases hsmall : n < 10
      · exact digits_of_lt hsmall
      · have hfront := ih (n / 10) (by omega)
        have hlast := digits_of_lt (n := n % 10) (by omega)
        have hsplit : digitsOf n = digitsOf (n / 10) ++ digitsOf (n % 10) := by
          have hjoin :=
            Nat.toDigits_append_toDigits (b := 10) (n := n / 10) (d := n % 10)
              (by decide) (by omega) (by omega)
          rw [Nat.div_add_mod] at hjoin
          exact hjoin.symm
        obtain ⟨d, hd⟩ : ∃ d, bytesOf (digitsOf (n % 10)) = [d] := by
          rw [digitsOf, Nat.toDigits_of_lt_base (by omega : n % 10 < 10)]
          exact ⟨_, by
            have : ∀ m < 10,
                bytesOf [Nat.digitChar m] = [UInt8.ofNat (48 + m)] := by decide
            exact this _ (by omega)⟩
        rw [hd] at hlast
        rw [hsplit, bytesOf_append, hd]
        refine ⟨fun c hc => ?_, ?_, ?_⟩
        · rcases List.mem_append.mp hc with h | h
          · exact hfront.isDigit c h
          · exact hlast.isDigit c h
        · have hunit : d.toNat - 48 = n % 10 := by
            have := hlast.value
            simpa [digitsValue] using this
          rw [digitsValue_append, hfront.value, hunit]
          omega
        · right
          rcases hfront.lead with hzero | ⟨c, rest, hlead, hc⟩
          · have hvalue := hfront.value
            rw [hzero] at hvalue
            have : digitsValue [0x30] = 0 := rfl
            omega
          · exact ⟨c, rest ++ [d], by rw [hlead]; rfl, hc⟩

section Scanning

variable {ds tail : Bytes} {n : Nat}

/-- The scan of digits takes all of them and stops at the end of the number. -/
theorem scanDigits_digits (hds : Digits ds n) (htail : Ends tail) :
    scanDigits (ds ++ tail) = .ok (ds, tail) := by
  have hhead : tail.takeWhile isDigit = [] ∧ tail.dropWhile isDigit = tail := by
    cases tail with
    | nil => exact ⟨rfl, rfl⟩
    | cons b rest =>
        have hb : isDigit b = false := (htail b rfl).1
        exact ⟨by rw [List.takeWhile_cons, hb]; rfl, by
          rw [List.dropWhile_cons, hb]; rfl⟩
  have htake : (ds ++ tail).takeWhile isDigit = ds := by
    rw [List.takeWhile_append_of_pos hds.isDigit, hhead.1, List.append_nil]
  have hdrop : (ds ++ tail).dropWhile isDigit = tail := by
    rw [List.dropWhile_append_of_pos hds.isDigit, hhead.2]
  rw [scanDigits, htake, hdrop]
  rcases hds.lead with rfl | ⟨d, rest, rfl, -⟩ <;> rfl

/-- A whole number's digits are taken in the same way. -/
theorem scanWhole_digits (hds : Digits ds n) (htail : Ends tail) :
    scanWhole (ds ++ tail) = .ok (ds, tail) := by
  rcases hds.lead with rfl | ⟨d, rest, rfl, hd⟩
  · cases tail with
    | nil => rfl
    | cons b rest =>
        have hb : isDigit b = false := (htail b rfl).1
        show (if isDigit b then _ else _) = _
        rw [hb]
        rfl
  · rw [← scanDigits_digits hds htail]
    show scanWhole (d :: (rest ++ tail)) = _
    rw [scanWhole]
    · rfl
    · intro more h
      exact hd (List.cons.inj h).1

/-- There is no fraction where the number ends. -/
theorem scanFraction_ends (htail : Ends tail) :
    scanFraction tail = .ok (none, tail) := by
  cases tail with
  | nil => rfl
  | cons b rest =>
      rw [scanFraction]
      intro more h
      exact (htail b rfl).2.1 (List.cons.inj h).1

/-- There is no exponent where the number ends. -/
theorem scanExponent_ends (htail : Ends tail) :
    scanExponent tail = .ok (none, tail) := by
  cases tail with
  | nil => rfl
  | cons b rest =>
      have hb := (htail b rfl).2.2
      have hletter : ¬ (b = 0x65 ∨ b = 0x45) := by
        rintro (h | h)
        · exact hb.1 h
        · exact hb.2 h
      rw [scanExponent, if_neg hletter]

/-- Digits without fraction and exponent are scanned as the number they
write. -/
theorem scanNumber_digits (minus : Bool) (hds : Digits ds n)
    (htail : Ends tail) :
    scanNumber minus (ds ++ tail) =
      .ok (numberOf minus ds none none, tail) := by
  rw [scanNumber, scanWhole_digits hds htail]
  show (scanFraction tail >>= _) = _
  rw [scanFraction_ends htail]
  show (scanExponent tail >>= _) = _
  rw [scanExponent_ends htail]
  rfl

end Scanning

/-- A minus begins a number token. -/
theorem scanToken_minus {rest tail : Bytes} {n : Except Fault Number}
    (hscan : scanNumber true rest = .ok (n, tail)) :
    scanToken 0x2d rest = (.number n, tail) := by
  simp [scanToken, hscan]

/-- A digit begins a number token, and is no blank. -/
theorem scanToken_digit {d : UInt8} {rest tail : Bytes}
    {n : Except Fault Number} (hd : isDigit d = true)
    (hscan : scanNumber false (d :: rest) = .ok (n, tail)) :
    isBlank d = false ∧ scanToken d rest = (.number n, tail) := by
  have hrange : 0x30 ≤ d.toNat ∧ d.toNat ≤ 0x39 := by
    simpa [isDigit, UInt8.le_iff_toNat_le] using hd
  have hne : ∀ b : UInt8, b.toNat < 0x30 ∨ 0x39 < b.toNat → d ≠ b := by
    rintro b hb rfl
    omega
  have hword : d ≠ 0x5b ∧ d ≠ 0x5d ∧ d ≠ 0x7b ∧ d ≠ 0x7d ∧ d ≠ 0x2c ∧
      d ≠ 0x3a ∧ d ≠ 0x22 ∧
      d ≠ 0x6e ∧ d ≠ 0x74 ∧ d ≠ 0x66 ∧ d ≠ 0x2d := by
    refine ⟨?_, ?_, ?_, ?_, ?_, ?_, ?_, ?_, ?_, ?_, ?_⟩ <;>
      exact hne _ (by decide)
  have hblank : d ≠ 0x20 ∧ d ≠ 0x0a ∧ d ≠ 0x09 ∧ d ≠ 0x0d := by
    refine ⟨?_, ?_, ?_, ?_⟩ <;> exact hne _ (by decide)
  exact ⟨by simp [isBlank, hblank], by simp [scanToken, hword, hd, hscan]⟩

/-- A number that fits is scanned back from its first byte on. -/
theorem scanToken_whole (n : Int) {tail : Bytes} (hfits : Number.fits n = true)
    (htail : Ends tail) :
    ∃ b rest, bytesOf (Number.wholeChars n) ++ tail = b :: rest ∧
      tail.length ≤ rest.length ∧
      isBlank b = false ∧
      scanToken b rest = (.number (.ok (.whole n)), tail) := by
  have hds := digits_digitsOf n.natAbs
  by_cases hneg : n < 0
  · have habs : -(n.natAbs : Int) = n := by omega
    have hzero : n.natAbs ≠ 0 := by omega
    have hnumber : numberOf true (bytesOf (digitsOf n.natAbs)) none none =
        .ok (.whole n) := by
      simp only [numberOf, hds.value, habs, if_true]
      exact if_pos ⟨hzero, hfits⟩
    have hscan := scanNumber_digits true hds htail
    rw [hnumber] at hscan
    have hminus : String.utf8EncodeChar '-' = [0x2d] := by decide
    refine ⟨0x2d, bytesOf (digitsOf n.natAbs) ++ tail, ?_, ?_, by decide,
      scanToken_minus hscan⟩
    · rw [Number.wholeChars, if_pos hneg, bytesOf_cons, hminus]
      rfl
    · rw [List.length_append]
      omega
  · have habs : (n.natAbs : Int) = n := by omega
    have hnumber : numberOf false (bytesOf (digitsOf n.natAbs)) none none =
        .ok (.whole n) := by
      simp only [numberOf, hds.value, habs, Bool.false_eq_true, if_false]
      exact if_pos hfits
    have hscan := scanNumber_digits false hds htail
    rw [hnumber] at hscan
    obtain ⟨d, rest, hlead⟩ : ∃ d rest,
        bytesOf (digitsOf n.natAbs) = d :: rest := by
      rcases hds.lead with h | ⟨d, rest, h, -⟩ <;> exact ⟨_, _, h⟩
    have hd : isDigit d = true :=
      hds.isDigit d (by rw [hlead]; exact List.mem_cons_self ..)
    rw [Number.wholeChars, if_neg hneg]
    rw [hlead] at hscan ⊢
    refine ⟨d, rest ++ tail, rfl, ?_, scanToken_digit hd hscan⟩
    rw [List.length_append]
    omega

end DidVault.Json
