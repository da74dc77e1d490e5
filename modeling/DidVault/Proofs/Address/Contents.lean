import DidVault.Proofs.Address
import DidVault.Proofs.Text.Base58
import DidVault.Text.Utf8

/-!
# What addresses say

An address is read back to the bytes that were written: a digest between two
zero bytes and its checksum (`Framed`).  So two keys have the same address
exactly if they have the same digest, or for the hash of a key the same
beginning of it (`Address.tell_digests`).
-/

namespace DidVault

namespace Base64

/-- Each of the 64 digits is read as its value, and none is the filler. -/
theorem symbol_of_lt {n : Nat} (hn : n < 64) :
    value? (symbol n) = some n ∧ symbol n ≠ '=' := by
  have hall : ∀ n < 64, value? (symbol n) = some n ∧ symbol n ≠ '=' := by
    decide +kernel
  exact hall n hn

/-- Four symbols that fill nothing up are read as three bytes, whatever follows
them. -/
theorem decodeChars_cons {x y z w : Nat} (hx : x < 64) (hy : y < 64)
    (hz : z < 64) (hw : w < 64) (rest : List Char) :
    decodeChars (symbol x :: symbol y :: symbol z :: symbol w :: rest) =
      (decodeChars rest).map fun bytes =>
        UInt8.ofNat (x * 4 + y / 16) :: UInt8.ofNat (y % 16 * 16 + z / 4)
          :: UInt8.ofNat (z % 4 * 64 + w) :: bytes := by
  have hfill := (symbol_of_lt hw).2
  rw [decodeChars, (symbol_of_lt hx).1, (symbol_of_lt hy).1,
    (symbol_of_lt hz).1, (symbol_of_lt hw).1]
  · cases decodeChars rest <;> rfl
  · intro _ h _
    exact hfill h
  · intro h _
    exact hfill h

/-- Every byte string is read back from its characters. -/
theorem decodeChars_encodeChars (bytes : Bytes) :
    decodeChars (encodeChars bytes) = some bytes := by
  induction bytes using encodeChars.induct with
  | case1 => rfl
  | case2 a =>
      have ha := a.toNat_lt
      obtain ⟨hx, -⟩ := symbol_of_lt (n := a.toNat / 4) (by omega)
      obtain ⟨hy, -⟩ := symbol_of_lt (n := a.toNat % 4 * 16) (by omega)
      have hread : a.toNat / 4 * 4 + a.toNat % 4 * 16 / 16 = a.toNat := by omega
      rw [encodeChars, decodeChars, hx, hy]
      simp only [hread, UInt8.ofNat_toNat]
      exact if_pos (by omega)
  | case3 a b =>
      have ha := a.toNat_lt
      have hb := b.toNat_lt
      obtain ⟨hx, -⟩ := symbol_of_lt (n := a.toNat / 4) (by omega)
      obtain ⟨hy, -⟩ :=
        symbol_of_lt (n := a.toNat % 4 * 16 + b.toNat / 16) (by omega)
      obtain ⟨hz, hfill⟩ := symbol_of_lt (n := b.toNat % 16 * 4) (by omega)
      have hfirst : a.toNat / 4 * 4 + (a.toNat % 4 * 16 + b.toNat / 16) / 16 =
          a.toNat := by omega
      have hsecond :
          (a.toNat % 4 * 16 + b.toNat / 16) % 16 * 16 + b.toNat % 16 * 4 / 4 =
            b.toNat := by omega
      rw [encodeChars, decodeChars, hx, hy, hz]
      · simp only [hfirst, hsecond, UInt8.ofNat_toNat]
        exact if_pos (by omega)
      · exact hfill
  | case4 a b c rest ih =>
      have ha := a.toNat_lt
      have hb := b.toNat_lt
      have hc := c.toNat_lt
      have hfirst : a.toNat / 4 * 4 + (a.toNat % 4 * 16 + b.toNat / 16) / 16 =
          a.toNat := by omega
      have hsecond : (a.toNat % 4 * 16 + b.toNat / 16) % 16 * 16
          + (b.toNat % 16 * 4 + c.toNat / 64) / 4 = b.toNat := by omega
      have hthird : (b.toNat % 16 * 4 + c.toNat / 64) % 4 * 64 + c.toNat % 64 =
          c.toNat := by omega
      rw [encodeChars,
        decodeChars_cons (by omega) (by omega) (by omega) (by omega), ih,
        hfirst, hsecond, hthird]
      simp only [UInt8.ofNat_toNat, Option.map_some]

end Base64

namespace Address

variable {bytes digest other : Bytes}

/-- The bytes are a digest behind two zero bytes and in front of a checksum,
which is the beginning of the SHA3-256 digest of everything before it. -/
structure Framed (bytes digest : Bytes) : Prop where
  eq : bytes = 0 :: 0 :: digest ++ (Sha3.hash (0 :: 0 :: digest)).take 4

/-- A framed digest has its checksum and its mark in place. -/
theorem framed_frame (digest : Bytes) : Framed (frame digest) digest := ⟨rfl⟩

/-- Framing adds six bytes. -/
theorem Framed.length (h : Framed bytes digest) :
    bytes.length = digest.length + 6 := by
  rw [h.eq, List.length_append, List.length_take, Sha3.length_hash]
  simp only [List.length_cons]
  omega

/-- The checksum is found again behind the rest of the bytes. -/
theorem Framed.checksumMatches (h : Framed bytes digest) :
    checksumMatches bytes = true := by
  have hcut : bytes.length - checksumLength = (0 :: 0 :: digest).length := by
    rw [h.length, checksumLength, List.length_cons, List.length_cons]
    omega
  have hlong : version.length + checksumLength ≤ bytes.length := by
    rw [h.length]
    show 2 + 4 ≤ digest.length + 6
    omega
  rw [Address.checksumMatches, decide_eq_true hlong, Bool.true_and, hcut, h.eq,
    List.drop_left, List.take_left, beq_iff_eq]
  rfl

/-- Bytes frame one digest only. -/
theorem Framed.unique (h : Framed bytes digest) (hother : Framed bytes other) :
    digest = other := by
  have hlength : digest.length = other.length := by
    have hsame := h.length.symm.trans hother.length
    omega
  have heq := h.eq.symm.trans hother.eq
  have hpayload := List.append_inj_left heq (by simp [hlength])
  exact (List.cons.inj (List.cons.inj hpayload).2).2

/-- The id of a key is decoded as the framed digest of the key. -/
theorem decode_spaceId (key : Bytes) :
    Base58.decodeChars (spaceId key).toList =
      some (frame (Ripemd160.hash (Sha3.hash key))) := by
  rw [spaceId, Base58.encode, String.toList_ofList,
    Base58.decodeChars_encodeChars]

/-- The hash of key material is decoded as the framed first bytes of its
digest. -/
theorem decode_keyHash (material : Bytes) :
    Base64.decodeChars (keyHash material).toList =
      some (frame ((Sha3.hash material).take keyDigestLength)) := by
  rw [keyHash, Base64.encode, String.toList_ofList,
    Base64.decodeChars_encodeChars]

/-- Framing loses nothing of the digest. -/
theorem frame_inj : frame digest = frame other ↔ digest = other := by
  refine ⟨fun h => ?_, congrArg frame⟩
  have hframed := framed_frame digest
  rw [h] at hframed
  exact hframed.unique (framed_frame other)

/-- Two keys share an id just when their digests agree. -/
theorem spaceId_inj {x y : Bytes} :
    spaceId x = spaceId y ↔
      Ripemd160.hash (Sha3.hash x) = Ripemd160.hash (Sha3.hash y) := by
  refine ⟨fun h => frame_inj.mp ?_, fun h => by rw [spaceId, h, spaceId]⟩
  have hread := decode_spaceId x
  rw [h, decode_spaceId] at hread
  exact (Option.some.inj hread).symm

/-- Two materials share a hash just when the first eight bytes of their digests
agree. -/
theorem keyHash_inj {x y : Bytes} :
    keyHash x = keyHash y ↔ (Sha3.hash x).take 8 = (Sha3.hash y).take 8 := by
  refine ⟨fun h => frame_inj.mp ?_, fun h => by
    rw [keyHash, keyDigestLength, h, keyHash,
      keyDigestLength]⟩
  have hread := decode_keyHash x
  rw [h, decode_keyHash] at hread
  exact (Option.some.inj hread).symm

/-- An id has letters and digits only. -/
theorem isAlphanum_of_mem_spaceId {c : Char} {key : Bytes}
    (hc : c ∈ (spaceId key).toList) : c.isAlphanum = true := by
  have hall : ∀ c ∈ Base58.alphabet, c.isAlphanum = true :=
    List.all_eq_true.mp (by decide)
  rw [spaceId, Base58.encode, String.toList_ofList] at hc
  exact hall c (Base58.mem_encodeChars hc)

/-- Addresses say which digest they are made of: read back, they frame it, and
so they are the same exactly if their digests are.  The identifier of an account
is one word. -/
theorem tell_digests (x y : Bytes) :
    (∃ bytes, Base58.decodeChars (spaceId x).toList = some bytes ∧
        bytes.length = 26 ∧ Framed bytes (Ripemd160.hash (Sha3.hash x)) ∧
        checksumMatches bytes = true) ∧
      (∃ bytes, Base64.decodeChars (keyHash x).toList = some bytes ∧
        bytes.length = 14 ∧ Framed bytes ((Sha3.hash x).take 8) ∧
        checksumMatches bytes = true) ∧
      (keyHash x).toList.length = 20 ∧
      (spaceId x = spaceId y ↔
        Ripemd160.hash (Sha3.hash x) = Ripemd160.hash (Sha3.hash y)) ∧
      (keyHash x = keyHash y ↔ (Sha3.hash x).take 8 = (Sha3.hash y).take 8) ∧
      spaceId x ≠ "" ∧ ∀ c ∈ (spaceId x).toList, c.isAlphanum = true := by
  have hspace := framed_frame (Ripemd160.hash (Sha3.hash x))
  have hkey := framed_frame ((Sha3.hash x).take keyDigestLength)
  have hlength : (frame (Ripemd160.hash (Sha3.hash x))).length = 26 := by
    rw [hspace.length, Ripemd160.length_hash]
  refine ⟨⟨_, decode_spaceId x, hlength, hspace, hspace.checksumMatches⟩,
    ⟨_, decode_keyHash x, length_frame_keyDigest x, hkey, hkey.checksumMatches⟩,
    length_keyHash x, spaceId_inj, keyHash_inj, ?_, fun c =>
      isAlphanum_of_mem_spaceId⟩
  obtain ⟨cs, hchars, -⟩ := spaceId_eq x
  intro hempty
  rw [hempty] at hchars
  cases hchars

/-- The digest stands behind the version in what the identifier of an account is
read as. -/
example : (Base58.decodeChars "115Uiiv4i1quetY5kyjYWPCMzyB4LiHwHRY".toList).map
    (fun bytes => (bytes.drop 2).take 20) =
      some (Ripemd160.hash (Sha3.hash (Utf8.encode "abc"))) := by
  decide +kernel

end Address

end DidVault
