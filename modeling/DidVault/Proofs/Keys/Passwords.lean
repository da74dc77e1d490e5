import DidVault.Proofs.Keys.Rotation
import DidVault.Registry

/-!
# Blobs under other passwords

A password enters the derived key only through the block that it gives to the
keyed digest (`Hmac.keyBlock`): one of more than sixty-four bytes is replaced by
its digest, and what is left is filled up with zeros.  So passwords that differ
in zeros at their end are one password (`Hmac.keyBlock_eq_iff`), and each of
them opens what was wrapped under another (`Wrapping.SameKey`).

Nothing else is known of a password without a look at the cipher: a blob is
opened exactly to those private keys of which it is the wrapping under that
password, too, and if there is none, it is taken for one that was wrapped under
another password (`Wrapping.Decided`).  What has to be assumed of the cipher so
that there is none is said for two passwords and one text
(`Wrapping.ToldApart`); then a wrapped key is refused exactly under the
passwords with another block (`Wrapping.refused_iff_of_toldApart`).
-/

namespace DidVault

namespace Hmac

variable {a b : Bytes}

/-- The key that counts: a key that is longer than a block is replaced by its
digest. -/
def effective (key : Bytes) : Bytes :=
  if key.length ≤ 64 then key else Sha256.hash key

/-- The second byte string is the first one with zeros behind it. -/
def Extends (a b : Bytes) : Prop :=
  ∃ n, b = a ++ List.replicate n 0

/-- The key block is the effective key, filled with zeros. -/
theorem keyBlock_eq (key : Bytes) :
    keyBlock key =
      effective key ++ List.replicate (64 - (effective key).length) 0 :=
  rfl

/-- The effective key fits the block. -/
theorem length_effective_le (key : Bytes) : (effective key).length ≤ 64 := by
  unfold effective
  split
  · next hshort => exact hshort
  · rw [Sha256.length_hash]
    decide

/-- Of two byte strings that are the same once they are filled up, the longer
one extends the other. -/
theorem extends_of_filled {m n : Nat} (hlength : a.length ≤ b.length)
    (hfilled : a ++ List.replicate m 0 = b ++ List.replicate n 0) :
    Extends a b := by
  have hb : (a ++ List.replicate m 0).take b.length = b := by
    rw [hfilled, List.take_left]
  have ha : a.take b.length = a := List.take_of_length_le hlength
  rw [List.take_append, ha, List.take_replicate] at hb
  exact ⟨min (b.length - a.length) m, hb.symm⟩

/-- What is extended is filled up to the same length with the same outcome. -/
theorem filled_of_extends (hextends : Extends a b) (hlength : b.length ≤ 64) :
    a ++ List.replicate (64 - a.length) 0 =
      b ++ List.replicate (64 - b.length) 0 := by
  obtain ⟨n, rfl⟩ := hextends
  rw [List.length_append, List.length_replicate] at hlength ⊢
  have hcount : 64 - a.length = n + (64 - (a.length + n)) := by omega
  rw [List.append_assoc, List.replicate_append_replicate, ← hcount]

/-- Two keys are one to the keyed digest exactly if what counts of them differs
in nothing but zeros at the end. -/
theorem keyBlock_eq_iff :
    keyBlock a = keyBlock b ↔
      Extends (effective a) (effective b) ∨
      Extends (effective b) (effective a) := by
  rw [keyBlock_eq, keyBlock_eq]
  constructor
  · intro h
    rcases Nat.le_total (effective a).length (effective b).length with
      hlength | hlength
    · exact .inl (extends_of_filled hlength h)
    · exact .inr (extends_of_filled hlength h.symm)
  · rintro (h | h)
    · exact filled_of_extends h (length_effective_le b)
    · exact (filled_of_extends h (length_effective_le a)).symm

end Hmac

/-- A key is derived from no more of a password than its block. -/
theorem Pbkdf2.derive_eq_of_keyBlock {a b : Bytes}
    (hblock : Hmac.keyBlock a = Hmac.keyBlock b) (salt : Bytes)
    (iterations : Nat) :
    derive a salt iterations = derive b salt iterations := by
  have hkey : Hmac.Key.ofBytes a = Hmac.Key.ofBytes b := by
    rw [Hmac.Key.ofBytes, Hmac.Key.ofBytes, hblock]
  rw [derive, derive, hkey]

namespace Wrapping

open Hmac (keyBlock effective Extends)

variable {iv blob plaintext : Bytes} {pem password other : String}
  {pair : KeyPair}

/-- Nothing that is made of a password tells the two apart. -/
def SameKey (password other : String) : Prop :=
  keyBlock (Utf8.encode password) = keyBlock (Utf8.encode other)

instance (password other : String) : Decidable (SameKey password other) :=
  inferInstanceAs (Decidable (_ = _))

/-- Two passwords have one key block if one effective key is the other with
zeros behind it. -/
theorem sameKey_iff :
    SameKey password other ↔
      Extends (effective (Utf8.encode password))
        (effective (Utf8.encode other)) ∨
        Extends (effective (Utf8.encode other))
          (effective (Utf8.encode password)) :=
  Hmac.keyBlock_eq_iff

/-- From the first block of the blob, the private key of the pair is wrapped to
this blob under the password. -/
def Fits (blob : Bytes) (password : String) (plaintext : Bytes)
    (pair : KeyPair) : Prop :=
  Reads plaintext pair ∧
  wrapWith ((blob.drop 4).take 16) plaintext password = blob

/-- Under the password the blob is opened to what fits, and if nothing does, the
password is taken for a wrong one. -/
structure Decided (blob : Bytes) (password : String) : Prop where
  opens : ∀ plaintext pair, Fits blob password plaintext pair →
    unwrap blob password = .ok plaintext ∧ unwrapKey blob password = .ok pair
  refuses : (¬ ∃ plaintext pair, Fits blob password plaintext pair) →
    unwrap blob password = .error .undecryptable ∧
      unwrapKey blob password = .error .undecryptable

/-- A blob that was wrapped is decided under every password. -/
theorem decided_wrapWith (hiv : iv.length = 16) (plaintext : Bytes)
    (password other : String) :
    Decided (wrapWith iv plaintext password) other := by
  have hparts := parts_wrapWith hiv plaintext password
  constructor
  · intro found pair hfits
    obtain ⟨hreads, hsame⟩ := hfits
    rw [hparts.take_iv] at hsame
    have hdecrypt := decrypt_wrapWith hiv found other
    rw [hsame] at hdecrypt
    exact unwrap_of_reads hdecrypt hreads
  · intro hnone
    cases hfound : decrypt (wrapWith iv plaintext password) other with
    | error e =>
        rcases hparts.unwrap_cases other with hwrong | ⟨found, pair, hopen, -⟩
        · exact hwrong
        · rw [(unwrap_of_error hfound).1] at hopen
          cases hopen
    | ok found =>
        rcases unwrap_of_decrypt hfound with ⟨pair, hreads, -⟩ | ⟨-, hwrong⟩
        · -- what is decrypted is wrapped to the same blob again
          have hsame := wrapWith_of_decrypt hfound
          rw [hparts.drop_version, ← hparts.eq] at hsame
          refine absurd ⟨found, pair, hreads, ?_⟩ hnone
          rw [hparts.drop_version]
          exact hsame
        · exact hwrong

/-- Passwords of one key block wrap alike. -/
theorem wrapWith_of_sameKey (hsame : SameKey password other)
    (iv plaintext : Bytes) :
    wrapWith iv plaintext password = wrapWith iv plaintext other := by
  rw [wrapWith, wrapWith, schedule, schedule, deriveKey, deriveKey,
    Pbkdf2.derive_eq_of_keyBlock hsame]

/-- A password that cannot be told from the right one opens the blob. -/
theorem unwrap_of_sameKey (hiv : iv.length = 16)
    (hload : KeyPair.ofPrivatePem pem = some pair)
    (hsame : SameKey password other) :
    unwrap (wrapWith iv (Utf8.encode pem) password) other =
      .ok (Utf8.encode pem) ∧
      unwrapKey (wrapWith iv (Utf8.encode pem) password) other = .ok pair := by
  rw [wrapWith_of_sameKey hsame]
  exact unwrap_of_reads (decrypt_wrapWith hiv _ other) ⟨pem, rfl, hload⟩

/-- A password key whose password was changed is stored as it was wrapped under
the new one. -/
theorem stored_of_updatePassword {account old new : String} {d d' : Desk}
    (hrun : Runs (Registry.updatePassword account old new) d (.ok blob) d') :
    d'.view.lookup (Slot.passwordKey account).key = some blob ∧
      ∃ iv pair, Custody.Opens d.view.lookup account old pair ∧ iv.length = 16 ∧
        blob = wrapWith iv (Utf8.encode pair.privatePem) new := by
  obtain ⟨d₀, d₁, hrotate, hbefore, hafter⟩ := DeskM.transactionally_ok hrun
  obtain ⟨wrapped, pair, iv, hfound, hopen, hiv, hblob⟩ :=
    Custody.opened_of_rotate hrotate
  constructor
  · rw [hafter, (Custody.rotate_ok hrotate).lookup]
    exact if_pos rfl
  · rw [hbefore] at hfound
    exact ⟨iv, pair, ⟨wrapped, hfound, hopen⟩, hiv, hblob⟩

/-- A blob that was wrapped under a password is opened under another one to the
private keys that the other one wraps to the same blob, and refused as wrapped
under another password if there is no such key.  It is opened to its own key if
the two passwords are one but for zeros at the end, where the digest stands for
a longer password.  So it is with the old password once a password has been
changed. -/
theorem decided_of_other_password (password other : String) :
    (∀ iv pem pair, iv.length = 16 → KeyPair.ofPrivatePem pem = some pair →
        Decided (wrapWith iv (Utf8.encode pem) password) other ∧
        (SameKey password other →
          unwrap (wrapWith iv (Utf8.encode pem) password) other =
            .ok (Utf8.encode pem) ∧
            unwrapKey (wrapWith iv (Utf8.encode pem) password) other =
              .ok pair)) ∧
      (SameKey password other ↔
        Extends (effective (Utf8.encode password))
          (effective (Utf8.encode other)) ∨
          Extends (effective (Utf8.encode other))
            (effective (Utf8.encode password))) ∧
      ∀ account d blob d',
        Runs (Registry.updatePassword account other password) d (.ok blob) d' →
          d'.view.lookup (Slot.passwordKey account).key = some blob ∧
          Decided blob other ∧
          ∃ pair, Custody.Opens d.view.lookup account other pair ∧
            (pair.Reloads → SameKey password other →
              Custody.Opens d'.view.lookup account other pair) := by
  refine ⟨fun iv pem pair hiv hload => ?_, sameKey_iff,
    fun account d blob d' hrun => ?_⟩
  · exact ⟨decided_wrapWith hiv _ password other, unwrap_of_sameKey hiv hload⟩
  · obtain ⟨hstored, iv, pair, hopens, hiv, hblob⟩ :=
      stored_of_updatePassword hrun
    refine ⟨hstored, ?_, pair, hopens, fun hreloads hsame => ?_⟩
    · rw [hblob]
      exact decided_wrapWith hiv _ password other
    · refine ⟨blob, hstored, ?_⟩
      rw [hblob]
      exact (unwrap_of_sameKey hiv hreloads hsame).2

/-- A zero character behind a password makes no difference to a wrapped key, and
one that is added to it is no change of the password. -/
theorem opened_under_padded_password :
    "pw" ≠ "pw\x00" ∧
      unwrapKey (wrapWith (List.replicate 16 0)
        (Utf8.encode KeyPair.small.privatePem) "pw") "pw\x00" = .ok .small ∧
      ∃ wrapped blob d', Runs (Registry.updatePassword "account" "pw" "pw\x00")
          (Custody.keeping "account" wrapped) (.ok blob) d' ∧
        Custody.Opens d'.view.lookup "account" "pw" .small := by
  refine ⟨by decide, ?_, ?_⟩
  · obtain ⟨hwrapped, -, -⟩ := decided_of_other_password "pw" "pw\x00"
    have hsame : SameKey "pw" "pw\x00" := by decide
    exact ((hwrapped _ _ _ rfl KeyPair.readable_small).2 hsame).2
  · let wrapped :=
      wrapWith (List.replicate 16 0) (Utf8.encode KeyPair.small.privatePem) "pw"
    have hopen : unwrapKey wrapped "pw" = .ok .small :=
      unwrapKey_wrapWith rfl KeyPair.readable_small "pw"
    have hopens :
        Custody.Opens (Custody.keeping "account" wrapped).view.committed.get?
          "account" "pw" .small := ⟨wrapped, Custody.lookup_keeping _ _, hopen⟩
    obtain ⟨blob, d', hrun⟩ :
        Succeeds (Registry.updatePassword "account" "pw" "pw\x00")
          (Custody.keeping "account" wrapped) :=
      Custody.succeeds_updatePassword rfl (fun _ => rfl) (Nat.le_refl _) hopens
    obtain ⟨-, -, hchanged⟩ := decided_of_other_password "pw\x00" "pw"
    obtain ⟨-, -, pair, ⟨found, hfound, hopened⟩, hreopens⟩ :=
      hchanged _ _ _ _ hrun
    obtain rfl :=
      Option.some.inj ((Custody.lookup_keeping _ _).symm.trans hfound)
    obtain rfl := Except.ok.inj (hopen.symm.trans hopened)
    exact ⟨wrapped, blob, d', hrun, hreopens KeyPair.readable_small (by decide)⟩

/-! ## Passwords that are refused -/

/-- The strength of the derivation and of the cipher at a text: passwords with
different blocks give different keys, and whatever the first block, what one
of these keys encrypts from the text is not the encryption of a private key
under the other one.  All of this is about two passwords and one text, since
it cannot be true of all passwords: there are more blocks than keys. -/
structure ToldApart (password other : String) (plaintext : Bytes) : Prop where
  derived : deriveKey password = deriveKey other → SameKey password other
  committed : ∀ iv found pair, deriveKey password ≠ deriveKey other →
    iv.length = 16 → Reads found pair →
    Cbc.encrypt (schedule other) (Aes256.Block.ofBytes iv) found ≠
      Cbc.encrypt (schedule password) (Aes256.Block.ofBytes iv) plaintext

/-- Where the derivation and the cipher are strong, a password with another
block is a wrong one. -/
theorem refused_of_toldApart (hiv : iv.length = 16)
    (hstrong : ToldApart password other plaintext)
    (hother : ¬ SameKey password other) :
    unwrap (wrapWith iv plaintext password) other = .error .undecryptable ∧
      unwrapKey (wrapWith iv plaintext password) other =
        .error .undecryptable := by
  refine (decided_wrapWith hiv plaintext password other).refuses ?_
  rintro ⟨found, pair, hreads, hsame⟩
  have hparts := parts_wrapWith hiv plaintext password
  rw [hparts.take_iv] at hsame
  have hcipher := (parts_wrapWith hiv found other).drop_iv
  rw [hsame, hparts.drop_iv] at hcipher
  have hkeys : deriveKey password ≠ deriveKey other := mt hstrong.derived hother
  exact hstrong.committed iv found pair hkeys hiv hreads hcipher.symm

/-- So a wrapped private key is refused exactly under the passwords with
another block. -/
theorem refused_iff_of_toldApart (hiv : iv.length = 16)
    (hload : KeyPair.ofPrivatePem pem = some pair)
    (hstrong : ToldApart password other (Utf8.encode pem)) :
    unwrapKey (wrapWith iv (Utf8.encode pem) password) other =
        .error .undecryptable ↔
      ¬ SameKey password other := by
  constructor
  · intro hrefused hsame
    have hopened := (unwrap_of_sameKey hiv hload hsame).2
    rw [hrefused] at hopened
    cases hopened
  · exact fun hother => (refused_of_toldApart hiv hstrong hother).2

/-- And once a password has been changed to one with another block, the old
one does not open the password key any more. -/
theorem refused_of_updatePassword {account old new : String} {d d' : Desk}
    (hstrong : ∀ pair, Custody.Opens d.view.lookup account old pair →
      ToldApart new old (Utf8.encode pair.privatePem))
    (hother : ¬ SameKey new old)
    (hrun : Runs (Registry.updatePassword account old new) d (.ok blob) d') :
    unwrap blob old = .error .undecryptable ∧
      unwrapKey blob old = .error .undecryptable ∧
      ∀ pair, ¬ Custody.Opens d'.view.lookup account old pair := by
  obtain ⟨hstored, iv, pair, hopens, hiv, rfl⟩ := stored_of_updatePassword hrun
  obtain ⟨hclosed, hrefused⟩ :=
    refused_of_toldApart hiv (hstrong pair hopens) hother
  refine ⟨hclosed, hrefused, ?_⟩
  rintro found ⟨wrapped, hfound, hopened⟩
  obtain rfl := Option.some.inj (hstored.symm.trans hfound)
  rw [hrefused] at hopened
  cases hopened

end Wrapping

end DidVault
