import DidVault.Did.Url.InPlace
import DidVault.Proofs.Did.Url.Reading
import DidVault.Proofs.Text.Slice

/-!
# The cursor between characters

Marks are single bytes, and no byte of another character looks like one.  So a
search that moves byte by byte passes over whole characters and stops where a
scan of the characters stops (`seekPlain_of_free`, `seekEscaped_over`), and the
piece it passed over is what the scan takes (`takePlain_front`,
`takeEscaped_front`).
-/

namespace DidVault.DidUrl

open Json

section Marks

variable {marks : List Char} {c : Char} {b : UInt8}

/-- All characters are among the first hundred and twenty-eight, so each is a
single byte. -/
def Narrow (marks : List Char) : Prop :=
  ∀ c ∈ marks, c.toNat < 0x80

instance (marks : List Char) : Decidable (Narrow marks) :=
  List.decidableBAll (fun c : Char => c.toNat < 0x80) marks

/-- A byte and its character have the same number. -/
theorem toNat_asChar (b : UInt8) : (asChar b).toNat = b.toNat :=
  Utf8.val_ofNat (.inl (by have := b.toNat_lt; omega))

/-- A byte is read as the character of its number. -/
theorem asChar_eq (h : b.toNat = c.toNat) : asChar b = c := by
  rw [asChar, h, Char.ofNat_toNat]

/-- No byte of a character looks like a mark, if the character is none. -/
theorem asChar_notMem (hmarks : Narrow marks) (hc : c ∉ marks)
    (hb : b ∈ String.utf8EncodeChar c) : asChar b ∉ marks := by
  intro hmem
  have hlt := hmarks _ hmem
  rw [toNat_asChar] at hlt
  rcases Utf8.of_mem_encodeChar hb with heq | hge
  · exact hc (asChar_eq heq ▸ hmem)
  · omega

/-- The byte of a mark looks like the mark. -/
theorem encodeChar_of_narrow (hc : c.toNat < 0x80) :
    ∃ b, String.utf8EncodeChar c = [b] ∧ asChar b = c := by
  have hle : c.val.toNat ≤ 127 := Nat.le_of_lt_succ hc
  refine ⟨UInt8.ofNat c.toNat, ?_, asChar_eq (Utf8.toNat_ofNat (by omega))⟩
  rw [String.utf8EncodeChar]
  exact if_pos hle

end Marks

section Seeking

variable {ends : Char → Bool} {marks front cs taken left : List Char}
  {bytes : Bytes} {place : Nat} {b : UInt8} {c : Char}

/-- The byte behind some characters is the first one of the next character. -/
theorem getElem?_front (front cs : List Char) :
    (bytesOf (front ++ cs))[(bytesOf front).length]? = (bytesOf cs).head? := by
  rw [bytesOf_append, List.getElem?_append_right (Nat.le_refl _), Nat.sub_self,
    List.head?_eq_getElem?]

/-- A character of one byte stands where its byte stands. -/
theorem getElem?_narrow (hc : c.toNat < 0x80) (front cs : List Char) :
    ∃ b, (bytesOf (front ++ c :: cs))[(bytesOf front).length]? = some b ∧
      asChar b = c := by
  obtain ⟨b, hencode, hb⟩ := encodeChar_of_narrow hc
  refine ⟨b, ?_, hb⟩
  rw [getElem?_front, bytesOf_cons, hencode]
  rfl

/-! What a search does is decided by the byte at the cursor. -/

/-- A scan ends with the text. -/
theorem seekPlain_end (hat : bytes[place]? = none) :
    seekPlain marks bytes place = place := by
  rw [seekPlain]
  split
  · rfl
  · next b hat' => cases hat.symm.trans hat'

/-- A scan looks at the byte at its place. -/
theorem seekPlain_at (hat : bytes[place]? = some b) :
    seekPlain marks bytes place =
      if asChar b ∈ marks then place else seekPlain marks bytes
        (place + 1) := by
  conv_lhs => rw [seekPlain]
  split
  · next hat' => cases hat.symm.trans hat'
  · next b' hat' =>
      obtain rfl := Option.some.inj (hat'.symm.trans hat)
      rfl

/-- A scan with escapes ends with the text. -/
theorem seekEscaped_end (hat : bytes[place]? = none) :
    seekEscaped marks bytes place = .ok place := by
  rw [seekEscaped]
  split
  · rfl
  · next b hat' => cases hat.symm.trans hat'

/-- A scan with escapes looks at the byte at its place: an escape takes the next
character with it, and a mark ends the scan. -/
theorem seekEscaped_at (hat : bytes[place]? = some b) :
    seekEscaped marks bytes place =
      if asChar b = '%' then
        if bytes.length ≤ place + 1 then .error (.refused ⟨place, .loneEscape⟩)
        else
          match piece bytes (place + 1) bytes.length with
          | .error halt => .error halt
          | .ok behind =>
            seekEscaped marks bytes
              (place + 1 + (behind.toList.head?.map Char.utf8Size).getD 1)
      else if asChar b ∈ marks then .ok place
      else seekEscaped marks bytes (place + 1) := by
  conv_lhs => rw [seekEscaped]
  split
  · next hat' => cases hat.symm.trans hat'
  · next b' hat' =>
      obtain rfl := Option.some.inj (hat'.symm.trans hat)
      rfl

/-- A byte that is no mark is passed over. -/
theorem seekPlain_step (hat : bytes[place]? = some b) (hb : asChar b ∉ marks) :
    seekPlain marks bytes place = seekPlain marks bytes (place + 1) := by
  rw [seekPlain_at hat, if_neg hb]

/-- A byte that is neither a mark nor an escape is passed over. -/
theorem seekEscaped_step (hat : bytes[place]? = some b)
    (hb : asChar b ∉ '%' :: marks) :
    seekEscaped marks bytes place = seekEscaped marks bytes (place + 1) := by
  rw [List.mem_cons, not_or] at hb
  rw [seekEscaped_at hat, if_neg hb.1, if_neg hb.2]

/-- What moves on over every byte of a run moves on over the run. -/
theorem over_run {α : Type} {seek : Nat → α} {first run rest : Bytes}
    (hstep : ∀ b ∈ run, ∀ place, (first ++ (run ++ rest))[place]? = some b →
      seek place = seek (place + 1)) :
    seek first.length = seek (first.length + run.length) := by
  induction run generalizing first with
  | nil => rfl
  | cons b run ih =>
      have hat : (first ++ (b :: run ++ rest))[first.length]? =
          some b := by simp
      have hsplit : first ++ (b :: run ++ rest) =
          (first ++ [b]) ++ (run ++ rest) := by simp
      rw [hstep b List.mem_cons_self _ hat]
      rw [hsplit] at hstep
      have hmore := ih fun d hd => hstep d (List.mem_cons_of_mem b hd)
      rw [List.length_append] at hmore
      rw [List.length_cons, Nat.add_comm run.length, ← Nat.add_assoc]
      exact hmore

/-- The same for the bytes of a character. -/
theorem over_char {α : Type} {seek : Nat → α}
    (hstep : ∀ b ∈ String.utf8EncodeChar c, ∀ place,
      (bytesOf (front ++ c :: cs))[place]? = some b →
      seek place = seek (place + 1)) :
    seek (bytesOf front).length = seek (bytesOf (front ++ [c])).length := by
  rw [bytesOf_append front, bytesOf_cons] at hstep
  rw [bytesOf_append, List.length_append,
    show bytesOf [c] = String.utf8EncodeChar c from
    List.append_nil _]
  exact over_run hstep

/-- A character that is no mark is passed over, however many bytes it has. -/
theorem seekPlain_char (hmarks : Narrow marks) (hc : c ∉ marks) :
    seekPlain marks (bytesOf (front ++ c :: cs)) (bytesOf front).length =
      seekPlain marks (bytesOf (front ++ c :: cs))
        (bytesOf (front ++ [c])).length :=
  over_char fun _ hb _ hat => seekPlain_step hat (asChar_notMem hmarks hc hb)

/-- A character that is neither a mark nor an escape is passed over. -/
theorem seekEscaped_char (hmarks : Narrow ('%' :: marks))
    (hc : c ∉ '%' :: marks) :
    seekEscaped marks (bytesOf (front ++ c :: cs)) (bytesOf front).length =
      seekEscaped marks (bytesOf (front ++ c :: cs))
        (bytesOf (front ++ [c])).length :=
  over_char fun _ hb _ hat => seekEscaped_step hat (asChar_notMem hmarks hc hb)

/-- A plain search finds the first mark. -/
theorem seekPlain_of_free (hmarks : Narrow marks)
    (hfree : ∀ c ∈ marks, c ∉ taken) (hleft : Halts marks left)
    (front : List Char) :
    seekPlain marks (bytesOf (front ++ (taken ++ left)))
      (bytesOf front).length = (bytesOf (front ++ taken)).length := by
  induction taken generalizing front with
  | nil =>
      rw [List.nil_append, List.append_nil]
      cases left with
      | nil => exact seekPlain_end (by simp)
      | cons c rest =>
          have hc := halts_cons.mp hleft
          obtain ⟨b, hat, hb⟩ := getElem?_narrow (hmarks c hc) front rest
          rw [seekPlain_at hat, hb, if_pos hc]
  | cons c taken ih =>
      have hc : c ∉ marks := fun hmem => hfree c hmem List.mem_cons_self
      have hrest :=
        ih (fun d hd hmem => hfree d hd (List.mem_cons_of_mem c hmem))
          (front ++ [c])
      rw [List.cons_append, seekPlain_char hmarks hc]
      simpa using hrest

/-- A `%` takes the character behind it along, however many bytes that has. -/
theorem seekEscaped_escape (front cs : List Char) (c : Char) :
    seekEscaped marks (bytesOf (front ++ '%' :: c :: cs))
      (bytesOf front).length =
        seekEscaped marks (bytesOf (front ++ '%' :: c :: cs))
          (bytesOf (front ++ ['%', c])).length := by
  obtain ⟨b, hat, hb⟩ := getElem?_narrow (c := '%') (by decide) front (c :: cs)
  have hplace : (bytesOf front).length + 1 =
      (bytesOf (front ++ ['%'])).length := by
    rw [bytesOf_append, List.length_append]
    rfl
  have hbehind :
      piece (bytesOf (front ++ '%' :: c :: cs)) ((bytesOf front).length + 1)
        (bytesOf (front ++ '%' :: c :: cs)).length =
          .ok (String.ofList (c :: cs)) := by
    have hslice := Utf8.slice?_behind (front ++ ['%']) (c :: cs)
    rw [List.append_assoc, List.singleton_append] at hslice
    rw [piece, hplace, hslice]
  have hpos := c.utf8Size_pos
  have hsize : (bytesOf (front ++ '%' :: c :: cs)).length =
      (bytesOf front).length + 1 + (c.utf8Size + (bytesOf cs).length) := by
    rw [← List.singleton_append, ← List.append_assoc, bytesOf_append,
      List.length_append, hplace, bytesOf_cons, List.length_append,
      String.length_utf8EncodeChar]
  have hwidth : (bytesOf (front ++ ['%', c])).length =
      (bytesOf front).length + 1 + c.utf8Size := by
    rw [← List.singleton_append, ← List.append_assoc, bytesOf_append,
      List.length_append, hplace, bytesOf_cons, List.length_append,
      String.length_utf8EncodeChar]
    rfl
  rw [seekEscaped_at hat, if_pos hb, if_neg (by omega)]
  simp only [hbehind, String.toList_ofList, List.head?_cons, Option.map_some,
    Option.getD_some, hwidth]

/-- A search with escapes passes over what is unbroken. -/
theorem seekEscaped_over (hmarks : Narrow ('%' :: marks))
    (htaken : Unbroken marks taken) (front : List Char) :
    seekEscaped marks (bytesOf (front ++ (taken ++ left)))
      (bytesOf front).length =
        seekEscaped marks (bytesOf (front ++ (taken ++ left)))
          (bytesOf (front ++ taken)).length := by
  fun_induction Unbroken marks taken generalizing front with
  | case1 => rw [List.nil_append, List.append_nil]
  | case2 => exact htaken.elim
  | case3 c rest ih =>
      have hrest := ih htaken (front ++ ['%', c])
      rw [List.cons_append, List.cons_append, seekEscaped_escape]
      simpa using hrest
  | case4 c rest hlone hescape ih =>
      have hc : c ∉ '%' :: marks :=
        List.not_mem_cons_of_ne_of_not_mem (ne_escape hlone hescape) htaken.1
      have hrest := ih htaken.2 (front ++ [c])
      rw [List.cons_append, seekEscaped_char hmarks hc]
      simpa using hrest

/-- A search with escapes stops at a mark, and at the end. -/
theorem seekEscaped_of_halts (hmarks : Narrow ('%' :: marks))
    (hescape : '%' ∉ marks) (hleft : Halts marks left) (front : List Char) :
    seekEscaped marks (bytesOf (front ++ left)) (bytesOf front).length =
      .ok (bytesOf front).length := by
  cases left with
  | nil => exact seekEscaped_end (by simp)
  | cons c rest =>
      have hc := halts_cons.mp hleft
      obtain ⟨b, hat, hb⟩ :=
        getElem?_narrow (hmarks c (List.mem_cons_of_mem _ hc)) front rest
      have hplain : asChar b ≠ '%' := by
        rw [hb]
        rintro rfl
        exact hescape hc
      rw [seekEscaped_at hat, if_neg hplain, hb, if_pos hc]

/-- A search with escapes refuses a `%` at the end. -/
theorem seekEscaped_lone (marks front : List Char) :
    seekEscaped marks (bytesOf (front ++ ['%'])) (bytesOf front).length =
      .error (.refused ⟨(bytesOf front).length, .loneEscape⟩) := by
  obtain ⟨b, hat, hb⟩ := getElem?_narrow (c := '%') (by decide) front []
  have hsize : (bytesOf (front ++ ['%'])).length =
      (bytesOf front).length + 1 := by
    rw [bytesOf_append, List.length_append]
    rfl
  rw [seekEscaped_at hat, if_pos hb, if_pos (by omega)]

end Seeking

section Taking

variable {ends : Char → Bool} {marks cs : List Char} {α β : Type}

/-- What the machine reports where a scanner stops in a text. -/
def refusal (text : List Char) (stop : Stop) : Halt :=
  .refused ⟨byteLength text - byteLength stop.unread, stop.fault⟩

/-- A reading from a list, as a reading in a text. -/
def within (text : List Char) (reading : Except Stop α) : Except Halt α :=
  reading.mapError (refusal text)

/-- What was read in the text is read. -/
@[simp] theorem within_ok (text : List Char) (a : α) :
    within text (.ok a) = .ok a := rfl

/-- What was refused in the text is refused at the place that it tells. -/
@[simp] theorem within_error (text : List Char) (stop : Stop) :
    within text (.error stop : Except Stop α) = .error (refusal text stop) :=
  rfl

@[simp] theorem ok_bind {ε : Type} (a : α) (next : α → Except ε β) :
    (Except.ok a >>= next) = next a := rfl

@[simp] theorem error_bind {ε : Type} (e : ε) (next : α → Except ε β) :
    ((Except.error e : Except ε α) >>= next) = .error e := rfl

/-- Steps in a text are steps in it one after the other. -/
theorem within_bind (text : List Char) (reading : Except Stop α)
    (next : α → Except Stop β) :
    within text (reading >>= next) = within text reading >>= fun a =>
      within text (next a) := by
  cases reading <;> rfl

/-- Characters and bytes give a text the same length. -/
theorem byteLength_eq (cs : List Char) :
    byteLength cs = (bytesOf cs).length := by
  induction cs with
  | nil => rfl
  | cons c cs ih =>
      rw [bytesOf_cons, List.length_append, String.length_utf8EncodeChar, ← ih]
      rfl

/-- A scanner that stops at all that is unread is refused where the unread text
begins. -/
theorem refusal_front (front cs : List Char) (fault : Fault) :
    refusal (front ++ cs) ⟨fault, cs⟩ =
      .refused ⟨(bytesOf front).length, fault⟩ := by
  rw [refusal, byteLength_eq, byteLength_eq, bytesOf_append, List.length_append,
    Nat.add_sub_cancel]

/-- The piece between two places is what stands between them. -/
theorem takeUpTo_front (front taken left : List Char) :
    takeUpTo (bytesOf (front ++ (taken ++ left))) (bytesOf front).length
      (bytesOf (front ++ taken)).length =
        .ok (String.ofList taken, (bytesOf (front ++ taken)).length) := by
  rw [takeUpTo, piece, Utf8.slice?_middle]
  rfl

/-- The machine takes what a plain scan takes. -/
theorem takePlain_front (hmarks : Narrow marks)
    (hends : ∀ c, ends c = true ↔ c ∈ marks) (front cs : List Char) :
    takePlain marks (bytesOf (front ++ cs)) (bytesOf front).length =
      .ok (String.ofList (scanPlain ends cs).1,
        (bytesOf (front ++ (scanPlain ends cs).1)).length) := by
  rcases hscan : scanPlain ends cs with ⟨taken, left⟩
  obtain ⟨rfl, hfree, hleft⟩ := (scanPlain_iff hends).mp hscan
  rw [takePlain, seekPlain_of_free hmarks hfree hleft, takeUpTo_front]

/-- The machine takes what a scan with escapes takes, and refuses what that
refuses. -/
theorem takeEscaped_front (hmarks : Narrow ('%' :: marks))
    (hescape : '%' ∉ marks) (hends : ∀ c, ends c = true ↔ c ∈ marks)
    (front cs : List Char) :
    takeEscaped marks (bytesOf (front ++ cs)) (bytesOf front).length =
      within (front ++ cs) (scanEscaped ends cs) >>= fun (taken, _) =>
        .ok (String.ofList taken, (bytesOf (front ++ taken)).length) := by
  rcases hscan : scanEscaped ends cs with stop | ⟨taken, left⟩
  · obtain ⟨taken, rfl, htaken, rfl⟩ :=
      unbroken_of_scanEscaped_error hends hscan
    have hrefuse := refusal_front (front ++ taken) ['%'] .loneEscape
    have hlone := seekEscaped_lone marks (front ++ taken)
    rw [List.append_assoc] at hrefuse hlone
    rw [takeEscaped, seekEscaped_over hmarks htaken, hlone, ← hrefuse]
    rfl
  · obtain ⟨rfl, htaken, hleft⟩ := unbroken_of_scanEscaped hends hscan
    have hhalt := seekEscaped_of_halts hmarks hescape hleft (front ++ taken)
    rw [List.append_assoc] at hhalt
    rw [takeEscaped, seekEscaped_over hmarks htaken, hhalt]
    exact takeUpTo_front front taken left

end Taking

end DidVault.DidUrl
