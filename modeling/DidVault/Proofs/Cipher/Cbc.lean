import DidVault.Cipher.Cbc
import DidVault.Proofs.Cipher.Aes256

/-!
# Chained blocks are taken back

A message of whole blocks is the bytes of its blocks, decryption takes the
chaining back block by block, and the filling of a message is taken off again.
Together `decrypt` takes `encrypt` back, under all round keys and from every
first block.

It is so the other way round, too: only the encryption of a message decrypts to
it (`encrypt_of_decrypt`), since chaining and filling are each undone in one way
only.
-/

namespace DidVault

namespace Bytes

variable {α : Type} {size : Nat} {positive : 0 < size} {xs rest : List α}

@[simp] theorem blocks_nil : blocks size positive ([] : List α) = [] := by
  rw [blocks]

/-- The first block is cut off as a whole. -/
theorem blocks_append (hlength : xs.length = size) :
    blocks size positive (xs ++ rest) = xs :: blocks size positive rest := by
  cases xs with
  | nil => exact absurd hlength (Nat.ne_of_lt positive)
  | cons x xs =>
      subst hlength
      rw [List.cons_append, blocks, ← List.cons_append, List.take_left,
        List.drop_left]

end Bytes

namespace Cbc

open Aes256

variable {message kept ciphertext : Bytes} {keys blocks : List Block}
  {iv : Block}

@[simp] theorem blocksOf_nil : blocksOf [] = [] := by
  rw [blocksOf, Bytes.blocks_nil, List.filterMap_nil]

/-- The blocks of a block's bytes and more are the block and the blocks of the
rest. -/
theorem blocksOf_toBytes_append (x : Block) (rest : Bytes) :
    blocksOf (x.toBytes ++ rest) = x :: blocksOf rest := by
  have hlength : x.toBytes.length = blockLength := Block.length_toBytes x
  rw [blocksOf, Bytes.blocks_append hlength,
    List.filterMap_cons_some (Block.ofBytes?_toBytes x), blocksOf]

/-- The blocks of the bytes of blocks. -/
theorem blocksOf_flatMap (blocks : List Block) :
    blocksOf (blocks.flatMap Block.toBytes) = blocks := by
  induction blocks with
  | nil => rw [List.flatMap_nil, blocksOf_nil]
  | cons x rest ih => rw [List.flatMap_cons, blocksOf_toBytes_append, ih]

/-- The bytes of the blocks of a message of whole blocks. -/
theorem flatMap_blocksOf (hwhole : message.length % blockLength = 0) :
    (blocksOf message).flatMap Block.toBytes = message := by
  obtain ⟨n, hn⟩ := Nat.dvd_of_mod_eq_zero hwhole
  induction n generalizing message with
  | zero =>
      rw [List.length_eq_zero_iff.mp hn, blocksOf_nil, List.flatMap_nil]
  | succ n ih =>
      have hfirst : (message.take blockLength).length = 16 := by
        rw [List.length_take, hn, Nat.mul_succ]
        exact Nat.min_eq_left (Nat.le_add_left ..)
      have hrest : (message.drop blockLength).length = blockLength * n := by
        rw [List.length_drop, hn, Nat.mul_succ, Nat.add_sub_cancel]
      obtain ⟨x, -, hx⟩ := Block.exists_ofBytes?_of_length hfirst
      rw [← List.take_append_drop blockLength message, ← hx,
        blocksOf_toBytes_append, List.flatMap_cons, ih _ hrest]
      rw [hrest, Nat.mul_mod_right]

/-- Blocks have sixteen bytes each. -/
theorem length_flatMap_toBytes (blocks : List Block) :
    (blocks.flatMap Block.toBytes).length = blockLength * blocks.length := by
  induction blocks with
  | nil => rfl
  | cons x rest ih =>
      rw [List.flatMap_cons, List.length_append, ih, Block.length_toBytes,
        List.length_cons, Nat.mul_succ, Nat.add_comm]
      rfl

/-- Encryption keeps the number of blocks. -/
@[simp] theorem length_encryptBlocks (keys : List Block) (before : Block)
    (blocks : List Block) :
    (encryptBlocks keys before blocks).length = blocks.length := by
  induction blocks generalizing before with
  | nil => rfl
  | cons x rest ih => rw [encryptBlocks, List.length_cons, List.length_cons, ih]

/-- Each block is added to the encryption before it once more. -/
theorem decryptBlocks_encryptBlocks (keys : List Block) (before : Block)
    (blocks : List Block) :
    decryptBlocks keys before (encryptBlocks keys before blocks) = blocks := by
  induction blocks generalizing before with
  | nil => rfl
  | cons x rest ih =>
      rw [encryptBlocks, decryptBlocks, decryptBlock_encryptBlock,
        Block.add_add_cancel, ih]

/-- What blocks decrypt to is chained to the same blocks again. -/
theorem encryptBlocks_decryptBlocks (keys : List Block) (before : Block)
    (blocks : List Block) :
    encryptBlocks keys before (decryptBlocks keys before blocks) = blocks := by
  induction blocks generalizing before with
  | nil => rfl
  | cons y rest ih =>
      rw [decryptBlocks, encryptBlocks, Block.add_add_cancel,
        encryptBlock_decryptBlock, ih]

/-! ## Filling -/

/-- The filling completes the last block, or is a block of its own. -/
theorem length_filling (n : Nat) :
    (filling n).length = blockLength - n % blockLength :=
  List.length_replicate

/-- A filled message has whole blocks, at least one. -/
theorem length_filled (message : Bytes) :
    (message ++ filling message.length).length =
      blockLength * (message.length / blockLength + 1) := by
  have hmod := Nat.mod_lt message.length blockLength_pos
  have hdiv := Nat.div_add_mod message.length blockLength
  rw [List.length_append, length_filling, Nat.mul_succ]
  omega

/-- The filling says how long it is, and so it is taken off. -/
theorem unfill_filled (message : Bytes) :
    unfill (message ++ filling message.length) = some message := by
  have hmod := Nat.mod_lt message.length blockLength_pos
  rw [unfill, filling]
  generalize hcount : blockLength - message.length % blockLength = count
  have hpos : 1 ≤ count := by omega
  have hle : count ≤ blockLength := by omega
  have hlast : (message ++ List.replicate count (UInt8.ofNat count)).getLast? =
      some (UInt8.ofNat count) := by
    rw [List.getLast?_append, List.getLast?_replicate, if_neg (by omega),
      Option.some_or]
  have hnat : (UInt8.ofNat count).toNat = count :=
    UInt8.toNat_ofNat_of_lt' (Nat.lt_of_le_of_lt hle (by decide))
  have hkept :
      (message ++ List.replicate count (UInt8.ofNat count)).length - count =
        message.length := by
    rw [List.length_append, List.length_replicate, Nat.add_sub_cancel]
  rw [hlast]
  dsimp only
  rw [hnat, hkept, List.take_left, List.drop_left, if_pos]
  refine ⟨hpos, hle, ?_, ?_⟩
  · rw [List.length_append, List.length_replicate]
    exact Nat.le_add_left _ _
  · rw [List.all_replicate, beq_self_eq_true, ite_self]

/-- What is taken off is the filling of what is kept. -/
theorem filled_of_unfill (hwhole : message.length % blockLength = 0)
    (hkept : unfill message = some kept) :
    kept ++ filling kept.length = message := by
  unfold unfill at hkept
  cases hlast : message.getLast? with
  | none =>
      rw [hlast] at hkept
      cases hkept
  | some last =>
      rw [hlast] at hkept
      dsimp only at hkept
      split at hkept
      · next hfilled =>
          obtain ⟨hpos, hle, hlength, hall⟩ := hfilled
          obtain rfl := Option.some.inj hkept
          have hcut : (message.take (message.length - last.toNat)).length =
              message.length - last.toNat := by
            rw [List.length_take]
            omega
          -- behind whole blocks less `last` bytes there is room for `last`
          -- bytes
          have hcount :
              blockLength - (message.length - last.toNat) % blockLength =
                last.toNat := by
            unfold blockLength at *
            omega
          have hdrop : message.drop (message.length - last.toNat) =
              List.replicate last.toNat last := by
            refine List.eq_replicate_iff.mpr ⟨?_, fun b hb => ?_⟩
            · rw [List.length_drop]
              omega
            · exact beq_iff_eq.mp (List.all_eq_true.mp hall b hb)
          rw [filling, hcut, hcount, UInt8.ofNat_toNat, ← hdrop,
            List.take_append_drop]
      · cases hkept

/-- What is encrypted is one to sixteen bytes longer than the message, in whole
blocks. -/
theorem length_encrypt (keys : List Block) (iv : Block) (message : Bytes) :
    (encrypt keys iv message).length =
      blockLength * (message.length / blockLength + 1) := by
  have hwhole :
      (message ++ filling message.length).length % blockLength = 0 := by
    rw [length_filled, Nat.mul_mod_right]
  have hblocks := congrArg List.length (flatMap_blocksOf hwhole)
  rw [length_flatMap_toBytes, length_filled] at hblocks
  rw [encrypt, length_flatMap_toBytes, length_encryptBlocks, hblocks]

/-- What was encrypted is decrypted under the same keys and first block. -/
theorem decrypt_encrypt (keys : List Block) (iv : Block) (message : Bytes) :
    decrypt keys iv (encrypt keys iv message) = some message := by
  rw [decrypt, encrypt, blocksOf_flatMap, decryptBlocks_encryptBlocks,
    flatMap_blocksOf, unfill_filled]
  rw [length_filled, Nat.mul_mod_right]

/-- What decrypts to a message is the encryption of it. -/
theorem encrypt_of_decrypt (hwhole : ciphertext.length % blockLength = 0)
    (hdecrypt : decrypt keys iv ciphertext = some message) :
    encrypt keys iv message = ciphertext := by
  have hlength : ((decryptBlocks keys iv (blocksOf ciphertext)).flatMap
      Block.toBytes).length % blockLength = 0 := by
    rw [length_flatMap_toBytes, Nat.mul_mod_right]
  rw [encrypt, filled_of_unfill hlength hdecrypt, blocksOf_flatMap,
    encryptBlocks_decryptBlocks, flatMap_blocksOf hwhole]

end Cbc

end DidVault
