import DidVault.Address

/-!
# The letters of addresses

Addresses are put into longer texts, so it matters which characters they are
made of.  The hash of a key has twenty characters, none of which divides the id
of a key (`not_mem_keyHash`); a slash may be among them.  The identifier of an
account begins with a `1` and has only symbols of the Base58 alphabet
(`spaceId_eq`).
-/

namespace DidVault

namespace Base64

variable {c : Char} {bytes : Bytes}

/-- Base64 writes four characters for every three bytes that are begun. -/
theorem length_encodeChars (bytes : Bytes) :
    (encodeChars bytes).length = 4 * ((bytes.length + 2) / 3) := by
  induction bytes using encodeChars.induct with
  | case1 => rfl
  | case2 a => simp [encodeChars]
  | case3 a b => simp [encodeChars]
  | case4 a b c rest ih =>
      simp only [encodeChars, List.length_cons, ih]
      omega

/-- Every character is a symbol, or fills up the last group. -/
theorem mem_encodeChars (hc : c ∈ encodeChars bytes) :
    c = '=' ∨ ∃ n, c = symbol n := by
  induction bytes using encodeChars.induct with
  | case1 => cases hc
  | case2 a =>
      simp only [encodeChars, List.mem_cons, List.not_mem_nil, or_false] at hc
      rcases hc with h | h | h | h
      · exact .inr ⟨_, h⟩
      · exact .inr ⟨_, h⟩
      · exact .inl h
      · exact .inl h
  | case3 a b =>
      simp only [encodeChars, List.mem_cons, List.not_mem_nil, or_false] at hc
      rcases hc with h | h | h | h
      · exact .inr ⟨_, h⟩
      · exact .inr ⟨_, h⟩
      · exact .inr ⟨_, h⟩
      · exact .inl h
  | case4 a b d rest ih =>
      simp only [encodeChars, List.mem_cons] at hc
      rcases hc with h | h | h | h | h
      · exact .inr ⟨_, h⟩
      · exact .inr ⟨_, h⟩
      · exact .inr ⟨_, h⟩
      · exact .inr ⟨_, h⟩
      · exact ih h

/-- Every symbol is that of a number below sixty-four. -/
theorem exists_symbol_eq (n : Nat) : ∃ m < 64, symbol n = symbol m := by
  by_cases hn : n < 63
  · exact ⟨n, by omega, rfl⟩
  · refine ⟨63, by omega, ?_⟩
    simp only [symbol]
    rw [if_neg (by omega), if_neg (by omega), if_neg (by omega),
      if_neg (by omega)]
    rfl

/-- What is true of the sixty-four symbols and of the sign that fills up is true
of every character. -/
theorem forall_mem_encodeChars {P : Char → Prop}
    (hsymbol : ∀ m < 64, P (symbol m)) (hfill : P '=') (bytes : Bytes) :
    ∀ c ∈ encodeChars bytes, P c := by
  intro c hc
  rcases mem_encodeChars hc with rfl | ⟨n, rfl⟩
  · exact hfill
  · obtain ⟨m, hm, heq⟩ := exists_symbol_eq n
    rw [heq]
    exact hsymbol m hm

/-- Among the characters that divide a DID URL only the slash is a symbol, and
none is escaped. -/
theorem not_mem_encodeChars (bytes : Bytes) :
    ∀ c ∈ [':', ';', '?', '&', '#', '%'], c ∉ encodeChars bytes := by
  have hnone : ∀ c ∈ encodeChars bytes, c ∉ [':', ';', '?', '&', '#', '%'] :=
    forall_mem_encodeChars (by decide) (by decide) bytes
  intro c hc hmem
  exact hnone c hmem hc

/-- Every character of Base64 is one byte long. -/
theorem utf8Size_of_mem_encodeChars (hc : c ∈ encodeChars bytes) :
    c.utf8Size = 1 := by
  have hall : ∀ c ∈ encodeChars bytes, c.utf8Size = 1 :=
    forall_mem_encodeChars (by decide) (by decide) bytes
  exact hall c hc

/-- A byte that is zero is written with a leading `A`. -/
theorem head?_encodeChars_zero (bytes : Bytes) :
    (encodeChars (0 :: bytes)).head? = some 'A' := by
  match bytes with
  | [] => rfl
  | [_] => rfl
  | _ :: _ :: _ => rfl

/-- A last group of less than three bytes is filled up. -/
theorem getLast?_encodeChars (hgroup : bytes.length % 3 ≠ 0) :
    (encodeChars bytes).getLast? = some '=' := by
  induction bytes using encodeChars.induct with
  | case1 => exact absurd rfl hgroup
  | case2 a => rfl
  | case3 a b => rfl
  | case4 a b c rest ih =>
      have hrest : rest.length % 3 ≠ 0 := by
        simp only [List.length_cons] at hgroup
        omega
      have hlast := ih hrest
      simp only [encodeChars, List.getLast?_cons, hlast, Option.getD_some]

end Base64

namespace Base58

variable {c : Char} {bytes : Bytes}

/-- A digit of Base58 is of its alphabet. -/
theorem symbol_mem (n : Nat) : symbol n ∈ alphabet := by
  rw [symbol, List.getD_eq_getElem?_getD]
  cases hn : alphabet[n]? with
  | none => decide
  | some c => exact List.mem_of_getElem? hn

/-- The digits put before a tail are of the alphabet. -/
theorem mem_digitsOnto {n : Nat} {tail : List Char}
    (hc : c ∈ digitsOnto n tail) :
    c ∈ alphabet ∨ c ∈ tail := by
  induction n, tail using digitsOnto.induct with
  | case1 tail =>
      rw [digitsOnto, if_pos rfl] at hc
      exact .inr hc
  | case2 n tail hn ih =>
      rw [digitsOnto, if_neg hn] at hc
      rcases ih hc with h | h
      · exact .inl h
      · rcases List.mem_cons.mp h with rfl | h
        · exact .inl (symbol_mem _)
        · exact .inr h

/-- All characters of Base58 are of the alphabet. -/
theorem mem_encodeChars (hc : c ∈ encodeChars bytes) : c ∈ alphabet := by
  rcases List.mem_append.mp hc with h | h
  · rw [List.eq_of_mem_replicate h]
    decide
  · rcases mem_digitsOnto h with h | h
    · exact h
    · cases h

end Base58

namespace Address

/-- The framed digest of a key has fourteen bytes. -/
theorem length_frame_keyDigest (material : Bytes) :
    (frame ((Sha3.hash material).take keyDigestLength)).length = 14 := by
  have hdigest : ((Sha3.hash material).take keyDigestLength).length = 8 := by
    rw [List.length_take, Sha3.length_hash]
    rfl
  have hsum : ∀ digest, (frame digest).length = 2 + digest.length + 4 := by
    intro digest
    rw [frame, checksum, List.length_append, List.length_append,
      List.length_take, Sha3.length_hash]
    rfl
  rw [hsum, hdigest]

/-- The hash of key material has twenty characters. -/
theorem length_keyHash (material : Bytes) :
    (keyHash material).toList.length = 20 := by
  rw [keyHash, Base64.encode, String.toList_ofList, Base64.length_encodeChars,
    length_frame_keyDigest]

/-- The hash of key material holds no delimiter of ids but, possibly, `/`. -/
theorem not_mem_keyHash (material : Bytes) :
    ∀ c ∈ [':', ';', '?', '&', '#', '%'], c ∉ (keyHash material).toList := by
  rw [keyHash, Base64.encode, String.toList_ofList]
  exact Base64.not_mem_encodeChars _

/-- Each character of the hash of key material is one byte long. -/
theorem utf8Size_of_mem_keyHash {c : Char} {material : Bytes}
    (hc : c ∈ (keyHash material).toList) : c.utf8Size = 1 := by
  rw [keyHash, Base64.encode, String.toList_ofList] at hc
  exact Base64.utf8Size_of_mem_encodeChars hc

/-- The version in front of the digest is written as a leading `A`. -/
theorem head?_keyHash (material : Bytes) :
    (keyHash material).toList.head? = some 'A' := by
  rw [keyHash, Base64.encode, String.toList_ofList]
  exact Base64.head?_encodeChars_zero _

/-- Fourteen bytes leave a last group of two, which is filled up. -/
theorem getLast?_keyHash (material : Bytes) :
    (keyHash material).toList.getLast? = some '=' := by
  rw [keyHash, Base64.encode, String.toList_ofList]
  refine Base64.getLast?_encodeChars ?_
  rw [length_frame_keyDigest]
  decide

/-- The version in front of the digest is written as a leading `1`. -/
theorem spaceId_eq (key : Bytes) :
    ∃ cs, (spaceId key).toList = '1' :: cs ∧ ∀ c ∈ cs, c ∈ Base58.alphabet := by
  obtain ⟨rest, hframe⟩ : ∃ rest,
      frame (Ripemd160.hash (Sha3.hash key)) = 0 :: rest := ⟨_, rfl⟩
  have hchars : (spaceId key).toList = Base58.encodeChars (0 :: rest) := by
    rw [spaceId, Base58.encode, String.toList_ofList, hframe]
  have hzeros : Base58.leadingZeros (0 :: rest) =
      Base58.leadingZeros rest + 1 := by
    rw [Base58.leadingZeros, List.takeWhile_cons_of_pos (by decide),
      List.length_cons]
    rfl
  refine ⟨List.replicate (Base58.leadingZeros rest) '1'
    ++ Base58.digitsOnto (Bytes.toNat (0 :: rest)) [], ?_, ?_⟩
  · rw [hchars, Base58.encodeChars, hzeros, List.replicate_succ,
      List.cons_append]
  · intro c hc
    have hmem : c ∈ Base58.encodeChars (0 :: rest) := by
      rw [Base58.encodeChars, hzeros, List.replicate_succ, List.cons_append]
      exact List.mem_cons_of_mem _ hc
    exact Base58.mem_encodeChars hmem

end Address

end DidVault
