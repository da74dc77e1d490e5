import DidVault.Cipher.Aes256
import Mathlib.Data.Finite.Prod
import Mathlib.Data.Fintype.Card

/-!
# The block cipher is taken back

Every step of a round has its inverse.  The substitution and the doubling of a
byte are checked on all bytes; doubling is linear, so that mixing a column is
linear too and `unmixColumn` takes it back.  The rounds follow by induction on
the round keys, whatever the keys are.

There are only finitely many blocks, so that encryption takes decryption back as
well (`encryptBlock_decryptBlock`).
-/

namespace DidVault

/-- What holds of the bytes of all numbers below two hundred and fifty-six holds
of every byte. -/
theorem forall_byte {p : UInt8 → Prop} (h : ∀ n : Fin 256, p (UInt8.ofNat n)) :
    ∀ x, p x := by
  intro x
  have hx := h ⟨x.toNat, x.toNat_lt⟩
  rwa [UInt8.ofNat_toNat] at hx

namespace Sbox

/-- The inverse table takes the substitution of every byte back. -/
theorem backward_forward : ∀ x, backward (forward x) = x :=
  forall_byte (by decide +kernel)

end Sbox

namespace Aes256

/-- Sums of bytes may be taken in another order. -/
theorem xor_left_comm (x y z : UInt8) : x ^^^ (y ^^^ z) = y ^^^ (x ^^^ z) := by
  rw [← UInt8.xor_assoc, UInt8.xor_comm x y, UInt8.xor_assoc]

/-- A byte that is added twice cancels out. -/
theorem xor_xor_cancel (x y : UInt8) : x ^^^ (x ^^^ y) = y := by
  rw [← UInt8.xor_assoc, UInt8.xor_self, UInt8.zero_xor]

/-! ## Columns -/

/-- The highest bit of a byte is a bit. -/
theorem top_bit : ∀ x : UInt8, x >>> 7 = 0 ∨ x >>> 7 = 1 :=
  forall_byte (by decide +kernel)

/-- Doubling is a shift; the bit that is lost on the left comes back as the
polynomial. -/
theorem double_eq : ∀ x, double x = x <<< 1 ^^^ (x >>> 7) * 0x1b :=
  forall_byte (by decide +kernel)

/-- Doubling a byte respects sums. -/
theorem double_xor (x y : UInt8) :
    double (x ^^^ y) = double x ^^^ double y := by
  have hfold {p q : UInt8} (hp : p = 0 ∨ p = 1) (hq : q = 0 ∨ q = 1) :
      (p ^^^ q) * 0x1b = p * 0x1b ^^^ q * 0x1b := by
    rcases hp with rfl | rfl <;> rcases hq with rfl | rfl <;> rfl
  simp only [double_eq, UInt8.shiftLeft_xor, UInt8.shiftRight_xor,
    hfold (top_bit x) (top_bit y)]
  ac_rfl

attribute [ext] Column

namespace Column

/-- A column that is added twice cancels out. -/
theorem add_add_cancel (x y : Column) : (x.add y).add y = x := by
  obtain ⟨a, b, c, d⟩ := x
  simp only [add, UInt8.xor_assoc, UInt8.xor_self, UInt8.xor_zero]

/-- The substitution of the bytes of a column is taken back. -/
theorem map_backward_map_forward (x : Column) :
    (x.map Sbox.forward).map Sbox.backward = x := by
  simp only [map, Sbox.backward_forward]

end Column

/-- Mixing does not tell the four rows apart. -/
theorem mixColumn_rotate (x : Column) :
    mixColumn x.rotate = (mixColumn x).rotate := by
  have hall : x.b ^^^ x.c ^^^ x.d ^^^ x.a = x.a ^^^ x.b ^^^ x.c ^^^ x.d := by
    ac_rfl
  simp only [mixColumn, Column.rotate, hall]

/-- Taking the mixing back does not tell the four rows apart. -/
theorem unmixColumn_rotate (x : Column) :
    unmixColumn x.rotate = (unmixColumn x).rotate := by
  rw [unmixColumn, unmixColumn, ← mixColumn_rotate]
  simp only [Column.rotate, UInt8.xor_comm x.c x.a]

/-- Columns with the opposite bytes changed alike are mixed as before, up to
that change. -/
theorem a_mixColumn_shift (x : Column) (u v : UInt8) :
    (mixColumn ⟨x.a ^^^ u, x.b ^^^ v, x.c ^^^ u, x.d ^^^ v⟩).a =
      (mixColumn x).a ^^^ u ^^^ double (u ^^^ v) := by
  have hall : (x.a ^^^ u) ^^^ (x.b ^^^ v) ^^^ (x.c ^^^ u) ^^^ (x.d ^^^ v) =
      x.a ^^^ x.b ^^^ x.c ^^^ x.d := by
    simp only [UInt8.xor_assoc, xor_left_comm u, xor_left_comm v,
      UInt8.xor_self, UInt8.xor_zero]
  have hpair : (x.a ^^^ u) ^^^ (x.b ^^^ v) = (x.a ^^^ x.b) ^^^ (u ^^^ v) := by
    ac_rfl
  simp only [mixColumn]
  rw [hall, hpair, double_xor]
  ac_rfl

/-- The sum of the bytes of a column. -/
def Column.sum (x : Column) : UInt8 := x.a ^^^ x.b ^^^ x.c ^^^ x.d

/-- What mixing makes of the first byte of a column. -/
theorem a_mixColumn (x : Column) :
    (mixColumn x).a = x.a ^^^ x.sum ^^^ double (x.a ^^^ x.b) := rfl

/-- What mixing makes of the second byte of a column. -/
theorem b_mixColumn (x : Column) :
    (mixColumn x).b = x.b ^^^ x.sum ^^^ double (x.b ^^^ x.c) := rfl

/-- What mixing makes of the sum of the first and third bytes. -/
theorem ac_mixColumn (x : Column) :
    (mixColumn x).a ^^^ (mixColumn x).c = x.a ^^^ x.c ^^^ double x.sum := by
  have hdouble : double x.sum = double (x.a ^^^ x.b) ^^^
      double (x.c ^^^ x.d) := by
    rw [← double_xor, Column.sum, UInt8.xor_assoc (x.a ^^^ x.b)]
  rw [hdouble, a_mixColumn]
  show _ ^^^ (x.c ^^^ x.sum ^^^ double (x.c ^^^ x.d)) = _
  generalize double (x.a ^^^ x.b) = p, double (x.c ^^^ x.d) = q, x.sum = s
  simp only [UInt8.xor_assoc, xor_left_comm s, xor_xor_cancel]
  ac_rfl

/-- What mixing makes of the sum of the second and fourth bytes. -/
theorem bd_mixColumn (x : Column) :
    (mixColumn x).b ^^^ (mixColumn x).d = x.b ^^^ x.d ^^^ double x.sum := by
  have hrotate := ac_mixColumn x.rotate
  have hsum : x.rotate.sum = x.sum := by
    simp only [Column.sum, Column.rotate]
    ac_rfl
  rwa [mixColumn_rotate, hsum] at hrotate

/-- Mixing keeps the sum of a column. -/
theorem sum_mixColumn (x : Column) : (mixColumn x).sum = x.sum := by
  have hac := ac_mixColumn x
  have hbd := bd_mixColumn x
  have hpairs (y : Column) : y.sum = (y.a ^^^ y.c) ^^^ (y.b ^^^ y.d) := by
    rw [Column.sum]
    ac_rfl
  rw [hpairs, hac, hbd, hpairs x]
  generalize double _ = p
  simp only [UInt8.xor_assoc, xor_left_comm p, UInt8.xor_self, UInt8.xor_zero]

/-- Mixing twice adds, to each byte, four times its sum with the opposite
one. -/
theorem a_mixColumn_mixColumn (x : Column) :
    (mixColumn (mixColumn x)).a = x.a ^^^ double (double (x.a ^^^ x.c)) := by
  have hab : (mixColumn x).a ^^^ (mixColumn x).b = x.a ^^^ x.b ^^^
      double (x.a ^^^ x.c) := by
    have hdouble : double (x.a ^^^ x.c) = double (x.a ^^^ x.b) ^^^
        double (x.b ^^^ x.c) := by
      rw [← double_xor, UInt8.xor_assoc, xor_xor_cancel]
    rw [hdouble, a_mixColumn, b_mixColumn]
    generalize double (x.a ^^^ x.b) = p, double (x.b ^^^ x.c) = q, x.sum = s
    simp only [UInt8.xor_assoc, xor_left_comm s, xor_xor_cancel]
    ac_rfl
  rw [a_mixColumn (mixColumn x), sum_mixColumn, hab, double_xor, a_mixColumn]
  generalize double (x.a ^^^ x.b) = p, x.sum = s
  simp only [UInt8.xor_assoc, xor_left_comm s, xor_xor_cancel]

/-- The first byte of a column is had back; the others follow by rotation. -/
theorem a_unmixColumn_mixColumn (x : Column) :
    (unmixColumn (mixColumn x)).a = x.a := by
  rw [unmixColumn, a_mixColumn_shift, a_mixColumn_mixColumn]
  have hall : double (double (double (x.a ^^^ x.c ^^^ double x.sum)) ^^^
      double (double (x.b ^^^ x.d ^^^ double x.sum))) =
        double (double (double x.sum)) := by
    have hcancel : (x.a ^^^ x.c ^^^ double x.sum) ^^^
        (x.b ^^^ x.d ^^^ double x.sum) = x.sum := by
      rw [← ac_mixColumn, ← bd_mixColumn, ← sum_mixColumn x, Column.sum]
      ac_rfl
    rw [← double_xor, ← double_xor, hcancel]
  rw [ac_mixColumn, bd_mixColumn, hall, double_xor (x.a ^^^ x.c),
    double_xor (double _)]
  simp only [UInt8.xor_assoc, xor_xor_cancel, UInt8.xor_self, UInt8.xor_zero]

/-- What holds of the first bytes of the columns holds of the columns, as
rotation changes nothing. -/
theorem unmixColumn_mixColumn (x : Column) : unmixColumn (mixColumn x) = x := by
  have hrotate (x : Column) :
      (unmixColumn (mixColumn x)).rotate.a = x.rotate.a := by
    rw [← unmixColumn_rotate, ← mixColumn_rotate, a_unmixColumn_mixColumn]
  have hb := hrotate x
  have hc := hrotate x.rotate
  have hd := hrotate x.rotate.rotate
  rw [mixColumn_rotate, unmixColumn_rotate] at hc
  rw [mixColumn_rotate, mixColumn_rotate, unmixColumn_rotate,
    unmixColumn_rotate] at hd
  exact Column.ext (a_unmixColumn_mixColumn x) hb hc hd

/-! ## Rounds -/

namespace Block

/-- A round key that is added twice cancels out. -/
theorem add_add_cancel (x y : Block) : (x.add y).add y = x := by
  simp only [add, Column.add_add_cancel]

/-- Moving the rows back undoes moving them. -/
theorem unshiftRows_shiftRows (x : Block) : x.shiftRows.unshiftRows = x := rfl

/-- A change of columns that takes another back does so on blocks. -/
theorem mapColumns_mapColumns {f g : Column → Column} (h : ∀ x, g (f x) = x)
    (x : Block) :
    (x.mapColumns f).mapColumns g = x := by
  simp only [mapColumns, h]

/-- The substitution of the bytes of a block is taken back. -/
theorem backward_forward (x : Block) :
    (x.mapColumns (Column.map Sbox.forward)).mapColumns
      (Column.map Sbox.backward) = x :=
  mapColumns_mapColumns Column.map_backward_map_forward x

/-- A block is read from its bytes. -/
theorem ofBytes?_toBytes (x : Block) : ofBytes? x.toBytes = some x := rfl

/-- A block has sixteen bytes. -/
@[simp] theorem length_toBytes (x : Block) : x.toBytes.length = 16 := rfl

/-- Sixteen bytes are those of a block. -/
theorem exists_ofBytes?_of_length {bytes : Bytes}
    (hlength : bytes.length = 16) :
    ∃ x, ofBytes? bytes = some x ∧ x.toBytes = bytes := by
  match bytes, hlength with
  | [a, b, c, d, e, f, g, h, i, j, k, l, m, n, o, p], _ => exact ⟨_, rfl, rfl⟩

end Block

/-- The last round of encryption does without mixing. -/
theorem encryptRounds_last (x last : Block) :
    encryptRounds x [last] =
      ((x.mapColumns (Column.map Sbox.forward)).shiftRows).add last :=
  rfl

/-- Every other round substitutes, moves, mixes and adds a key. -/
theorem encryptRounds_cons (x key next : Block) (keys : List Block) :
    encryptRounds x (key :: next :: keys) =
      encryptRounds
        ((((x.mapColumns (Column.map Sbox.forward)).shiftRows).mapColumns
          mixColumn).add key) (next :: keys) := rfl

/-- Decryption begins with the last round key. -/
theorem decryptRounds_last (x last : Block) :
    decryptRounds x [last] =
      ((x.add last).unshiftRows).mapColumns (Column.map Sbox.backward) := rfl

/-- Every other round is taken back in the opposite order. -/
theorem decryptRounds_cons (x key next : Block) (keys : List Block) :
    decryptRounds x (key :: next :: keys) =
      (((((decryptRounds x (next :: keys)).add key).mapColumns
        unmixColumn).unshiftRows).mapColumns (Column.map Sbox.backward)) := rfl

/-- Decryption takes the rounds of encryption back, one round key after the
other. -/
theorem decryptRounds_encryptRounds (x : Block) (keys : List Block) :
    decryptRounds (encryptRounds x keys) keys = x := by
  induction keys generalizing x with
  | nil => rfl
  | cons key keys ih =>
      cases keys with
      | nil =>
          rw [encryptRounds_last, decryptRounds_last, Block.add_add_cancel,
            Block.unshiftRows_shiftRows, Block.backward_forward]
      | cons next keys =>
          rw [encryptRounds_cons, decryptRounds_cons, ih, Block.add_add_cancel,
            Block.mapColumns_mapColumns unmixColumn_mixColumn,
            Block.unshiftRows_shiftRows,
            Block.backward_forward]

/-- Decryption takes encryption back, under whatever round keys. -/
theorem decryptBlock_encryptBlock (keys : List Block) (x : Block) :
    decryptBlock keys (encryptBlock keys x) = x := by
  cases keys with
  | nil => rfl
  | cons first keys =>
      rw [encryptBlock, decryptBlock, decryptRounds_encryptRounds,
        Block.add_add_cancel]

/-! ## The other way round -/

instance finite_byte : Finite UInt8 :=
  Finite.of_surjective (fun n : Fin 256 => UInt8.ofNat n)
    (forall_byte fun n => ⟨n, rfl⟩)

instance finite_column : Finite Column :=
  Finite.of_injective (fun x => (x.a, x.b, x.c, x.d)) fun x y h => by
    simp only [Prod.mk.injEq] at h
    exact Column.ext h.1 h.2.1 h.2.2.1 h.2.2.2

instance finite_block : Finite Block :=
  Finite.of_injective (fun x => (x.p, x.q, x.r, x.s)) fun x y h => by
    simp only [Prod.mk.injEq] at h
    obtain ⟨hp, hq, hr, hs⟩ := h
    cases x
    cases y
    rw [Block.mk.injEq]
    exact ⟨hp, hq, hr, hs⟩

/-- No two blocks have the same encryption, and so every block is the encryption
of some block, which is the one that it decrypts to. -/
theorem encryptBlock_decryptBlock (keys : List Block) (y : Block) :
    encryptBlock keys (decryptBlock keys y) = y := by
  have hinjective : Function.Injective (encryptBlock keys) := by
    intro x x' h
    rw [← decryptBlock_encryptBlock keys x, h, decryptBlock_encryptBlock]
  obtain ⟨x, rfl⟩ := Finite.surjective_of_injective hinjective y
  rw [decryptBlock_encryptBlock]

end Aes256

end DidVault
