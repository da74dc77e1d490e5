import DidVault.Text.Base58
import Mathlib.Data.Nat.Digits.Lemmas

/-!
# Reading Base58 back

A byte string and its Base58 text write one number to two bases, and both have a
rule of its own for the zeros in front, which the number does not show.  So both
are taken apart into the zeros and the digits of the number
(`Bytes.zeros_append_ofNat`, `digitsOnto_eq`), and every byte string is read
back from its text (`decodeChars_encodeChars`).
-/

namespace DidVault

/-- The number of digits that stand most significant first. -/
theorem foldl_eq_ofDigits (base : Nat) (ds : List Nat) :
    ds.foldl (fun n d => n * base + d) 0 = Nat.ofDigits base ds.reverse := by
  rw [Nat.ofDigits_eq_foldr, List.foldr_reverse]
  simp only [Nat.cast_id, Nat.mul_comm, Nat.add_comm]

namespace Bytes

variable {n : Nat} {bytes : Bytes}

/-- Bytes are read as a number to the base 256. -/
theorem toNat_eq_ofDigits (bytes : Bytes) :
    toNat bytes = Nat.ofDigits 256 (bytes.reverse.map UInt8.toNat) := by
  rw [List.map_reverse, ← foldl_eq_ofDigits, List.foldl_map, toNat]

/-- Enough fuel writes all digits of a number. -/
theorem ofNatOnto_eq {fuel : Nat} (hfuel : n < 256 ^ fuel) (tail : Bytes) :
    ofNatOnto fuel n tail = (Nat.digits 256 n).reverse.map UInt8.ofNat
      ++ tail := by
  induction fuel generalizing n tail with
  | zero =>
      obtain rfl : n = 0 := by simpa using hfuel
      rfl
  | succ fuel ih =>
      rw [ofNatOnto]
      split
      · next hn =>
          subst hn
          rfl
      · next hn =>
          have hrest : n / 256 < 256 ^ fuel := by
            rw [Nat.div_lt_iff_lt_mul (by decide), ← Nat.pow_succ]
            exact hfuel
          have hdigit : UInt8.ofNat (n % 256) = UInt8.ofNat n := by
            rw [← UInt8.toNat_inj, UInt8.toNat_ofNat', UInt8.toNat_ofNat']
            exact Nat.mod_mod n 256
          rw [ih hrest, Nat.digits_def' (by decide) (Nat.pos_of_ne_zero hn),
            List.reverse_cons, List.map_append, List.map_singleton, hdigit,
            List.append_assoc, List.singleton_append]

/-- A number is written by its digits to the base 256. -/
theorem ofNat_eq (hn : n ≠ 0) :
    ofNat n = (Nat.digits 256 n).reverse.map UInt8.ofNat := by
  have hfuel : n < 256 ^ (n.log2 / 8 + 1) := by
    have hlog : n < 2 ^ (n.log2 + 1) := Nat.lt_log2_self
    have hbytes : 256 ^ (n.log2 / 8 + 1) = 2 ^ (8 * (n.log2 / 8 + 1)) := by
      rw [Nat.pow_mul]
    rw [hbytes]
    exact Nat.lt_of_lt_of_le hlog (Nat.pow_le_pow_right (by decide) (by omega))
  rw [ofNat, if_neg hn, ofNatOnto_eq hfuel, List.append_nil]

/-- Bytes that do not begin with a zero are the bytes of their number. -/
theorem ofNat_toNat (hgiven : bytes ≠ []) (hstart : bytes.head? ≠ some 0) :
    toNat bytes ≠ 0 ∧ ofNat (toNat bytes) = bytes := by
  obtain ⟨b, rest, rfl⟩ := List.exists_cons_of_ne_nil hgiven
  have hb : b.toNat ≠ 0 :=
    fun h => hstart (congrArg some (UInt8.toNat_inj.mp h))
  have hbytes : Nat.digits 256 (toNat (b :: rest)) =
      (b :: rest).reverse.map UInt8.toNat := by
    rw [toNat_eq_ofDigits]
    refine Nat.digits_ofDigits 256 (by decide) _ (fun d hd => ?_) fun hne => ?_
    · obtain ⟨c, -, rfl⟩ := List.mem_map.mp hd
      exact c.toNat_lt
    · simpa using hb
  have hn : toNat (b :: rest) ≠ 0 := by
    intro h
    rw [h, Nat.digits_zero] at hbytes
    simp at hbytes
  refine ⟨hn, ?_⟩
  rw [ofNat_eq hn, hbytes, ← List.map_reverse, List.reverse_reverse,
    List.map_map]
  exact (List.map_congr_left fun c _ => UInt8.ofNat_toNat).trans (List.map_id _)

/-- Leading zeros do not count for the number. -/
theorem toNat_replicate_append (count : Nat) (bytes : Bytes) :
    toNat (List.replicate count 0 ++ bytes) = toNat bytes := by
  rw [toNat, List.foldl_append, toNat]
  refine congrArg (fun start => List.foldl _ start bytes) ?_
  induction count with
  | zero => rfl
  | succ count ih => exact ih

/-- Zeros and the bytes of a number, which is not written if it is zero, are
what a byte string is made of. -/
theorem zeros_append_ofNat (bytes : Bytes) :
    List.replicate (bytes.takeWhile (· == 0)).length 0
      ++ (if toNat bytes = 0 then [] else ofNat (toNat bytes)) = bytes := by
  have hzeros : bytes.takeWhile (· == 0)
      = List.replicate (bytes.takeWhile (· == 0)).length 0 := by
    refine List.eq_replicate_of_mem fun b hb => ?_
    have hall := List.all_takeWhile (p := (· == 0)) (l := bytes)
    simpa using List.all_eq_true.mp hall b hb
  have hsplit :
      List.replicate (bytes.takeWhile (· == 0)).length 0 ++ bytes.dropWhile
        (· == 0) = bytes := by
    rw [← hzeros]
    exact List.takeWhile_append_dropWhile
  have hnumber : toNat bytes = toNat (bytes.dropWhile (· == 0)) := by
    have hsame := toNat_replicate_append (bytes.takeWhile (· == 0)).length
      (bytes.dropWhile (· == 0))
    rwa [hsplit] at hsame
  have hbehind : (if toNat bytes = 0 then [] else ofNat (toNat bytes))
      = bytes.dropWhile (· == 0) := by
    rw [hnumber]
    by_cases hnothing : bytes.dropWhile (· == 0) = []
    · rw [hnothing]
      rfl
    · have hstart : (bytes.dropWhile (· == 0)).head? ≠ some 0 := by
        intro h
        have hfirst := List.head?_dropWhile_not (· == 0) bytes
        rw [h] at hfirst
        exact absurd hfirst (by decide)
      obtain ⟨hn, hread⟩ := ofNat_toNat hnothing hstart
      rw [if_neg hn, hread]
  rw [hbehind, hsplit]

end Bytes

namespace Base58

/-- The digits of Base58 are those to the base 58, the highest first. -/
theorem digitsOnto_eq (n : Nat) (tail : List Char) :
    digitsOnto n tail = (Nat.digits 58 n).reverse.map symbol ++ tail := by
  induction n, tail using digitsOnto.induct with
  | case1 tail =>
      rw [digitsOnto, if_pos rfl]
      rfl
  | case2 n tail hn ih =>
      rw [digitsOnto, if_neg hn, ih,
        Nat.digits_def' (by decide) (Nat.pos_of_ne_zero hn), List.reverse_cons,
        List.map_append, List.map_singleton, List.append_assoc,
        List.singleton_append]

/-- A digit's symbol is read as the digit. -/
theorem value?_symbol {d : Nat} (hd : d < 58) : value? (symbol d) = some d := by
  have hall : ∀ d < 58, value? (symbol d) = some d := by decide +kernel
  exact hall d hd

/-- The digits of a number do not begin with the symbol of zero. -/
theorem head?_digitsOnto (n : Nat) : (digitsOnto n []).head? ≠ some '1' := by
  rw [digitsOnto_eq, List.append_nil]
  by_cases hn : n = 0
  · rw [hn, Nat.digits_zero]
    nofun
  · have hdigits : Nat.digits 58 n ≠ [] := Nat.digits_ne_nil_iff_ne_zero.mpr hn
    have hlast := Nat.getLast_digit_ne_zero 58 hn
    have hsmall :=
      Nat.digits_lt_base (by decide : 1 < 58) (List.getLast_mem hdigits)
    rw [List.head?_map, List.head?_reverse,
      List.getLast?_eq_some_getLast hdigits]
    intro h
    have hzero := congrArg value? (Option.some.inj h)
    rw [value?_symbol hsmall] at hzero
    exact hlast (Option.some.inj hzero)

/-- All digits of a number are read from their symbols. -/
theorem mapM_value?_digits (n : Nat) :
    (digitsOnto n []).mapM value? = some (Nat.digits 58 n).reverse := by
  have hall : ∀ ds : List Nat, (∀ d ∈ ds, d < 58) →
      (ds.map symbol).mapM value? = some ds := by
    intro ds hds
    induction ds with
    | nil => rfl
    | cons d rest ih =>
        obtain ⟨hd, hrest⟩ := List.forall_mem_cons.mp hds
        rw [List.map_cons, List.mapM_cons, value?_symbol hd, ih hrest]
        rfl
  rw [digitsOnto_eq, List.append_nil]
  refine hall _ fun d hd => ?_
  exact Nat.digits_lt_base (by decide) (List.mem_reverse.mp hd)

/-- Every byte string is read back from its characters. -/
theorem decodeChars_encodeChars (bytes : Bytes) :
    decodeChars (encodeChars bytes) = some bytes := by
  have hones : ∀ c ∈ List.replicate (leadingZeros bytes) '1',
      (c == '1') = true := by
    intro c hc
    rw [List.eq_of_mem_replicate hc]
    rfl
  have hnone : (digitsOnto (Bytes.toNat bytes) []).takeWhile (· == '1') = [] ∧
      (digitsOnto (Bytes.toNat bytes) []).dropWhile (· == '1')
        = digitsOnto (Bytes.toNat bytes) [] := by
    have hhead := head?_digitsOnto (Bytes.toNat bytes)
    cases hdigits : digitsOnto (Bytes.toNat bytes) [] with
    | nil => exact ⟨rfl, rfl⟩
    | cons c rest =>
        rw [hdigits] at hhead
        have hc : ¬ (c == '1') = true :=
          fun h => hhead (congrArg some (by simpa using h))
        exact ⟨List.takeWhile_cons_of_neg hc, List.dropWhile_cons_of_neg hc⟩
  have hzeros : (encodeChars bytes).takeWhile (· == '1') =
      List.replicate (leadingZeros bytes) '1' := by
    rw [encodeChars, List.takeWhile_append_of_pos hones, hnone.1,
      List.append_nil]
  have hdigits : (encodeChars bytes).dropWhile (· == '1') =
      digitsOnto (Bytes.toNat bytes) [] := by
    rw [encodeChars, List.dropWhile_append_of_pos hones, hnone.2]
  have hnumber :
      (Nat.digits 58 (Bytes.toNat bytes)).reverse.foldl
        (fun n d => n * 58 + d) 0 = Bytes.toNat bytes := by
    rw [foldl_eq_ofDigits, List.reverse_reverse, Nat.ofDigits_digits]
  have hread : decodeChars (encodeChars bytes) =
      some (if Bytes.toNat bytes = 0 then List.replicate (leadingZeros bytes) 0
        else List.replicate (leadingZeros bytes) 0 ++
          Bytes.ofNat (Bytes.toNat bytes)) := by
    rw [decodeChars, hzeros, hdigits, mapM_value?_digits, List.length_replicate]
    simp only [Option.bind_eq_bind, Option.bind_some, hnumber, pure]
  rw [hread, Option.some.injEq]
  refine Eq.trans ?_ (Bytes.zeros_append_ofNat bytes)
  rw [leadingZeros]
  split
  · exact (List.append_nil _).symm
  · rfl

end Base58

end DidVault
