import DidVault.Cipher.Aes256

/-!
# Chained blocks

A message is filled up to whole blocks and each block is added to the encryption
of the one before it.  The filling is one to sixteen bytes, each of which says
how many they are, so that it can be taken off again.
-/

namespace DidVault.Cbc

open Aes256

/-- How many bytes a block has. -/
def blockLength : Nat := 16

theorem blockLength_pos : 0 < blockLength := by decide

/-- The bytes that fill a message up to whole blocks. -/
def filling (n : Nat) : Bytes :=
  let count := blockLength - n % blockLength
  List.replicate count (UInt8.ofNat count)

/-- Takes the filling off a message of whole blocks; nothing if it is not well
made. -/
def unfill (message : Bytes) : Option Bytes :=
  match message.getLast? with
  | none => none
  | some last =>
    let count := last.toNat
    let kept := message.length - count
    if 1 ≤ count ∧ count ≤ blockLength ∧ count ≤ message.length
        ∧ (message.drop kept).all (· == last) then
      some (message.take kept)
    else none

/-- The blocks of a message of whole blocks. -/
def blocksOf (message : Bytes) : List Block :=
  (Bytes.blocks blockLength blockLength_pos message).filterMap Block.ofBytes?

/-- Encrypts blocks, each added to the encryption `before` it. -/
def encryptBlocks (keys : List Block) (before : Block) : List Block → List Block
  | [] => []
  | x :: rest =>
    let y := encryptBlock keys (x.add before)
    y :: encryptBlocks keys y rest

/-- Decrypts blocks, each added to the encryption `before` it. -/
def decryptBlocks (keys : List Block) (before : Block) : List Block → List Block
  | [] => []
  | y :: rest => (decryptBlock keys y).add before :: decryptBlocks keys y rest

/-- Encrypts a message from a first block `iv`. -/
def encrypt (keys : List Block) (iv : Block) (message : Bytes) : Bytes :=
  (encryptBlocks keys iv (blocksOf (message ++ filling message.length))).flatMap
    Block.toBytes

/-- Decrypts a message of whole blocks; nothing if its filling is not well
made. -/
def decrypt (keys : List Block) (iv : Block) (message : Bytes) : Option Bytes :=
  unfill ((decryptBlocks keys iv (blocksOf message)).flatMap Block.toBytes)

end DidVault.Cbc
