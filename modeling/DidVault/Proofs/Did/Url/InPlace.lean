import DidVault.Proofs.Did.Url.Cursor

/-!
# Reading in place and reading from a list

The cursor of the machine always stands behind some characters of the text, so a
state of it is a list of characters in front of the cursor and one behind it.
Seen like this, every phase reads what the scanner of that part reads
(`reading_id`, `behind_path` and so on), refuses what that refuses and at the
same place, and the machine as a whole does what the reader from a list does
(`readInPlace_eq`).
-/

namespace DidVault.DidUrl

open Json

section Phases

variable {front cs left : List Char} {url : DidUrl} {c : Char}

/-- What ends one of the ids between the colons of an identifier. -/
def endsSub (c : Char) : Bool := c == ':' || endsId c

/-- The marks that end a part of an identifier. -/
theorem endsSub_iff (c : Char) :
    endsSub c = true ↔ c ∈ [':', ';', '/', '?', '#'] := by
  rw [endsSub, Bool.or_eq_true, endsId_iff, beq_iff_eq]
  exact List.mem_cons.symm

/-- What comes of a step: the parts, if there is nothing more to read. -/
def resume (bytes : Bytes) : Option Phase × Scanner → Except Halt DidUrl
  | (none, s) => .ok s.url
  | (some phase, s) => run bytes phase s

/-- The machine runs one step and goes on from where that ended. -/
theorem run_eq (bytes : Bytes) (phase : Phase) (s : Scanner) :
    run bytes phase s = step bytes phase s >>= resume bytes := by
  rw [run]
  split
  · next h =>
      rw [h]
      rfl
  · next h =>
      rw [h]
      rfl
  · next h =>
      rw [h]
      rfl

/-- The machine with the cursor between `front` and `cs`. -/
def reading (phase : Phase) (front cs : List Char) (url : DidUrl) :
    Except Halt DidUrl :=
  run (bytesOf (front ++ cs)) phase ⟨(bytesOf front).length, url⟩

/-- The machine behind a part that ended between `front` and `cs`. -/
def behind (front cs : List Char) (url : DidUrl) : Except Halt DidUrl :=
  resume (bytesOf (front ++ cs))
    (goOn (bytesOf (front ++ cs)) (bytesOf front).length url)

/-- Where a step ended that took `taken`, the machine goes on behind it. -/
theorem resume_goOn {taken : List Char} (hcs : cs = taken ++ left)
    (front : List Char) (url : DidUrl) :
    resume (bytesOf (front ++ cs))
        (goOn (bytesOf (front ++ cs)) (bytesOf (front ++ taken)).length url) =
      behind (front ++ taken) left url := by
  rw [behind, List.append_assoc, ← hcs]

/-- At the end of the text nothing more is read. -/
theorem behind_nil (front : List Char) (url : DidUrl) :
    behind front [] url = .ok url := by
  simp [behind, goOn, resume]

/-- A mark says what is read behind it. -/
theorem behind_cons {phase : Phase} (hc : c.toNat < 0x80)
    (hphase : Phase.behind c = some phase) (front cs : List Char)
    (url : DidUrl) :
    behind front (c :: cs) url = reading phase (front ++ [c]) cs url := by
  obtain ⟨b, hat, hb⟩ := getElem?_narrow hc front cs
  obtain ⟨b', hencode, -⟩ := encodeChar_of_narrow hc
  have hplace : (bytesOf (front ++ [c])).length =
      (bytesOf front).length + 1 := by
    rw [bytesOf_append, List.length_append, bytesOf_cons, hencode]
    rfl
  rw [behind, goOn, hat]
  simp only [hb, hphase, resume]
  rw [reading, hplace, List.append_assoc, List.singleton_append]

/-- A plain scan in the machine, with what is made of the piece. -/
theorem bind_takePlain {marks : List Char} {ends : Char → Bool} {α : Type}
    {f : String × Nat → Except Halt α}
    (g : List Char × List Char → Except Halt α) (hmarks : Narrow marks)
    (hends : ∀ c, ends c = true ↔ c ∈ marks) (front cs : List Char)
    (hnext : ∀ taken left, cs = taken ++ left →
      f (String.ofList taken, (bytesOf (front ++ taken)).length) =
        g (taken, left)) :
    takePlain marks (bytesOf (front ++ cs)) (bytesOf front).length >>= f =
      g (scanPlain ends cs) := by
  have hcs : cs = (scanPlain ends cs).1 ++ (scanPlain ends cs).2 :=
    ((scanPlain_iff hends).mp rfl).1
  rw [takePlain_front hmarks hends]
  exact hnext _ _ hcs

/-- A scan with escapes in the machine, with what is made of the piece. -/
theorem bind_takeEscaped {marks : List Char} {ends : Char → Bool} {α : Type}
    {f : String × Nat → Except Halt α}
    (g : List Char × List Char → Except Halt α) (hmarks : Narrow ('%' :: marks))
    (hescape : '%' ∉ marks) (hends : ∀ c, ends c = true ↔ c ∈ marks)
    (front cs : List Char)
    (hnext : ∀ taken left, cs = taken ++ left →
      f (String.ofList taken, (bytesOf (front ++ taken)).length) =
        g (taken, left)) :
    takeEscaped marks (bytesOf (front ++ cs)) (bytesOf front).length >>= f =
      within (front ++ cs) (scanEscaped ends cs) >>= g := by
  rw [takeEscaped_front hmarks hescape hends]
  rcases hscan : scanEscaped ends cs with stop | ⟨taken, left⟩
  · rfl
  · exact hnext taken left (unbroken_of_scanEscaped hends hscan).1

/-- A text is empty if it has no characters. -/
theorem ofList_eq_empty {cs : List Char} : String.ofList cs = "" ↔ cs = [] := by
  rw [← String.toList_inj, String.toList_ofList]
  rfl

/-- A further id goes behind the ids that were read before. -/
theorem reading_id_of_given (hgiven : url.id ≠ "") (front cs : List Char) :
    reading .id front cs url =
      within (front ++ cs) (scanEscaped endsSub cs) >>= fun r =>
        behind (front ++ r.1) r.2
          { url with id := url.id ++ ":" ++ String.ofList r.1 } := by
  rw [reading, run_eq, step, bind_assoc]
  refine bind_takeEscaped _ (by decide) (by decide) endsSub_iff front cs
    fun segment left hcs => ?_
  simp only [if_pos hgiven]
  exact resume_goOn hcs ..

/-- The first id must not be empty. -/
theorem reading_id_of_blank (hblank : url.id = "") (front cs : List Char) :
    reading .id front cs url =
      within (front ++ cs) (scanEscaped endsSub cs) >>= fun r =>
        if r.1 = [] then .error (refusal (front ++ cs) ⟨.emptyId, cs⟩)
        else behind (front ++ r.1) r.2
          { url with id := String.ofList r.1 } := by
  rw [reading, run_eq, step, bind_assoc]
  refine bind_takeEscaped _ (by decide) (by decide) endsSub_iff front cs
    fun segment left hcs => ?_
  simp only [hblank, ne_eq, not_true_eq_false, if_false, ofList_eq_empty,
    ← refusal_front front cs]
  split
  · rfl
  · exact resume_goOn hcs ..

/-- The name of a parameter must not be empty; a parameter has no value at
first. -/
theorem reading_paramName (front cs : List Char) (url : DidUrl) :
    reading .paramName front cs url =
      within (front ++ cs) (scanEscaped endsName cs) >>= fun r =>
        if r.1 = [] then .error (refusal (front ++ cs) ⟨.emptyParamName, cs⟩)
        else behind (front ++ r.1) r.2
          { url with params := url.params ++ [⟨String.ofList r.1, none⟩] } := by
  rw [reading, run_eq, step, bind_assoc]
  refine bind_takeEscaped _ (by decide) (by decide) endsName_iff front cs
    fun name left hcs => ?_
  simp only [ofList_eq_empty, ← refusal_front front cs]
  split
  · rfl
  · exact resume_goOn hcs ..

/-- A value goes to the last parameter. -/
theorem reading_paramValue (front cs : List Char) (url : DidUrl) :
    reading .paramValue front cs url =
      within (front ++ cs) (scanEscaped endsId cs) >>= fun r =>
        behind (front ++ r.1) r.2
          { url with params := giveValue url.params (String.ofList r.1) } := by
  rw [reading, run_eq, step, bind_assoc]
  refine bind_takeEscaped _ (by decide) (by decide) endsId_iff front cs
    fun value left hcs => ?_
  exact resume_goOn hcs ..

/-- A segment goes to the end of the path; the first one must not be empty. -/
theorem reading_path (front cs : List Char) (url : DidUrl) :
    reading .path front cs url =
      if url.path = [] ∧ (scanPlain endsSegment cs).1 = [] then
        .error (refusal (front ++ cs) ⟨.emptyFirstSegment, cs⟩)
      else behind (front ++ (scanPlain endsSegment cs).1)
        (scanPlain endsSegment cs).2
          { url with path := url.path ++
            [String.ofList (scanPlain endsSegment cs).1] } := by
  rw [reading, run_eq, step, bind_assoc]
  refine bind_takePlain (fun r => if url.path = [] ∧ r.1 = [] then
      .error (refusal (front ++ cs) ⟨.emptyFirstSegment, cs⟩)
    else behind (front ++ r.1) r.2
      { url with path := url.path ++ [String.ofList r.1] })
    (by decide) endsSegment_iff front cs fun segment left hcs => ?_
  simp only [ofList_eq_empty, ← refusal_front front cs]
  split
  · rfl
  · exact resume_goOn hcs ..

/-- A query reaches to the next hash. -/
theorem reading_query (front cs : List Char) (url : DidUrl) :
    reading .query front cs url =
      behind (front ++ (scanPlain (· == '#') cs).1) (scanPlain (· == '#') cs).2
        { url with
          query := some (String.ofList (scanPlain (· == '#') cs).1) } := by
  rw [reading, run_eq, step, bind_assoc]
  refine bind_takePlain (fun r => behind (front ++ r.1) r.2
    { url with query := some (String.ofList r.1) })
    (by decide) (by simp) front cs fun query left hcs => ?_
  exact resume_goOn hcs ..

/-- A fragment reaches to the end. -/
theorem reading_fragment (front cs : List Char) (url : DidUrl) :
    reading .fragment front cs url =
      .ok { url with fragment := some (String.ofList cs) } := by
  rw [reading, run_eq, step, piece, Utf8.slice?_behind]
  rfl

end Phases

section Identifiers

variable {cs left : List Char} {url : DidUrl}

/-- Reads the ids behind the first one, with their colons. -/
def scanSubIds : List Char → Except Stop (List Char × List Char)
  | ':' :: rest => do
    let (ids, left) ← scanEscaped endsId rest
    return (':' :: ids, left)
  | cs => .ok ([], cs)

/-- An identifier is its first id and the ids behind that. -/
theorem scanEscaped_endsId (cs : List Char) :
    scanEscaped endsId cs = scanEscaped endsSub cs >>= fun r =>
      scanSubIds r.2 >>= fun s => .ok (r.1 ++ s.1, s.2) := by
  fun_induction scanEscaped endsSub cs with
  | case1 => rfl
  | case2 => rfl
  | case3 c rest taken left hrest ih =>
      rw [hrest] at ih
      rw [scanEscaped, ih]
      cases hids : scanSubIds left <;> simp [hids]
  | case4 c rest stop hrest ih =>
      rw [hrest] at ih
      rw [scanEscaped, ih]
      rfl
  | case5 c rest hlone hescape hc =>
      rw [scanEscaped]
      · by_cases hcolon : c = ':'
        · subst hcolon
          rw [if_neg (by decide), ok_bind, scanSubIds]
          cases hrest : scanEscaped endsId rest <;> rfl
        · have hc' : endsId c = true := by simpa [endsSub, hcolon] using hc
          rw [if_pos hc', ok_bind, scanSubIds]
          · rfl
          · intro rest' heq
            exact hcolon (List.cons.inj heq).1
      · exact hlone
      · exact hescape
  | case6 c rest hlone hescape hc taken left hrest ih =>
      have hc' : ¬ endsId c = true :=
        fun h => hc (by rw [endsSub, h, Bool.or_true])
      rw [hrest] at ih
      rw [scanEscaped, if_neg hc', ih]
      · cases hids : scanSubIds left <;> simp [hids]
      · exact hlone
      · exact hescape
  | case7 c rest hlone hescape hc stop hrest ih =>
      have hc' : ¬ endsId c = true :=
        fun h => hc (by rw [endsSub, h, Bool.or_true])
      rw [hrest] at ih
      rw [scanEscaped, if_neg hc', ih]
      · rfl
      · exact hlone
      · exact hescape

/-- The machine reads the ids behind the first one in rounds, one id in each. -/
theorem behind_subIds (hgiven : url.id ≠ "") (front cs : List Char) :
    behind front cs url =
      within (front ++ cs) (scanSubIds cs) >>= fun r =>
        behind (front ++ r.1) r.2
          { url with id := url.id ++ String.ofList r.1 } := by
  induction hlength : cs.length using Nat.strong_induction_on
    generalizing front cs url with
  | _ n ih =>
      by_cases hcolon : ∃ rest, cs = ':' :: rest
      · obtain ⟨rest, rfl⟩ := hcolon
        rw [behind_cons (by decide) rfl, reading_id_of_given hgiven, scanSubIds,
          scanEscaped_endsId]
        rcases hscan : scanEscaped endsSub rest with stop | ⟨id, left⟩
        · simp
        · have hlen := length_le_of_scanEscaped hscan
          obtain ⟨rfl, -, -⟩ := unbroken_of_scanEscaped endsSub_iff hscan
          have hshort : left.length < n := by
            rw [List.length_cons] at hlength
            omega
          have hmore := @ih left.length hshort
            { url with id := url.id ++ ":" ++ String.ofList id } (by simp)
            (front ++ [':'] ++ id) left rfl
          rw [within_ok, ok_bind, ok_bind, hmore]
          cases scanSubIds left <;>
            simp [String.append_assoc, pure, Except.pure]
      · have hnone : scanSubIds cs = .ok ([], cs) := by
          rw [scanSubIds]
          rintro rest rfl
          exact hcolon ⟨rest, rfl⟩
        simp [hnone]

/-- The first id is not empty; then the machine reads a whole identifier. -/
theorem reading_id (hblank : url.id = "") (front cs : List Char) :
    reading .id front cs url =
      within (front ++ cs) (scanId cs) >>= fun r =>
        behind (front ++ r.1) r.2 { url with id := String.ofList r.1 } := by
  rw [reading_id_of_blank hblank]
  cases cs with
  | nil => simp [scanId, scanEscaped]
  | cons c rest =>
      rw [scanId]
      by_cases hc : endsSub c = true
      · have hplain : c ≠ '%' := by
          rintro rfl
          exact absurd hc (by decide)
        have hscan : scanEscaped endsSub (c :: rest) = .ok ([], c :: rest) := by
          rw [scanEscaped, if_pos hc]
          · exact fun h _ => hplain h
          · exact fun _ _ h _ => hplain h
        rw [endsSub] at hc
        simp [hscan, hc]
      · have hc' : ¬ (c == ':' || endsId c) = true := hc
        rw [if_neg hc', scanEscaped_endsId]
        rcases hscan : scanEscaped endsSub (c :: rest) with stop | ⟨id, left⟩
        · simp
        · obtain ⟨hcs, -, hleft⟩ := unbroken_of_scanEscaped endsSub_iff hscan
          have hgiven : id ≠ [] := by
            rintro rfl
            rw [List.nil_append] at hcs
            subst hcs
            exact hc ((endsSub_iff c).mpr (halts_cons.mp hleft))
          rw [within_ok, ok_bind, ok_bind, if_neg hgiven, behind_subIds, hcs]
          · cases scanSubIds left <;> simp
          · exact fun h => hgiven (ofList_eq_empty.mp h)

end Identifiers

section Parts

variable {cs left : List Char} {url : DidUrl}

/-- The last parameter is the one that a value is given to. -/
theorem giveValue_concat (params : List Param) (name value : String) :
    giveValue (params ++ [⟨name, none⟩]) value =
      params ++ [⟨name, some value⟩] := by
  simp [giveValue]

/-- A parameter is read with its value, if it has one. -/
theorem behind_param (front cs : List Char) (url : DidUrl) :
    behind front (';' :: cs) url =
      within (front ++ ';' :: cs) (scanParam cs) >>= fun r =>
        behind (front ++ r.1.render.toList) r.2
          { url with params := url.params ++ [r.1] } := by
  rw [behind_cons (by decide) rfl, reading_paramName]
  rcases hname : scanEscaped endsName cs with stop | ⟨name, left⟩
  · simp [scanParam, hname]
  · rw [within_ok, ok_bind]
    cases name with
    | nil => simp [scanParam, hname]
    | cons c name =>
        rw [if_neg (List.cons_ne_nil c name)]
        by_cases hvalued : ∃ rest, left = '=' :: rest
        · obtain ⟨rest, rfl⟩ := hvalued
          rw [behind_cons (by decide) rfl, reading_paramValue]
          rcases hvalue : scanEscaped endsId rest with stop | ⟨value, left⟩
          · have hcs := (scanName_iff.mp hname).1
            rw [List.append_assoc, List.append_assoc, List.append_assoc,
              List.singleton_append, List.singleton_append, ← hcs]
            simp [scanParam, hname, hvalue]
          · simp [scanParam, hname, hvalue, toList_renderParam,
              giveValue_concat]
        · have hparam :
              scanParam cs = .ok (⟨String.ofList (c :: name), none⟩, left) := by
            rw [scanParam, hname]
            split
            · next h => cases h
            · next h => cases h
            · next h =>
                cases h
                exact absurd ⟨_, rfl⟩ hvalued
            · next h =>
                cases h
                rfl
          simp [hparam, toList_renderParam]

/-- The machine reads parameters in rounds, one parameter in each. -/
theorem behind_params (front cs : List Char) (url : DidUrl) :
    behind front cs url =
      within (front ++ cs) (scanParams cs) >>= fun r =>
        behind (front ++ paramChars r.1) r.2
          { url with params := url.params ++ r.1 } := by
  fun_induction scanParams cs generalizing front url with
  | case1 rest stop hparam =>
      rw [behind_param, hparam, within_error, error_bind, within_error,
        error_bind]
  | case2 rest param left hparam stop hrest ih =>
      obtain ⟨hchars, -, -⟩ := wellFormed_of_scanParam hparam
      rw [behind_param, hparam, within_ok, ok_bind, ih, hrest,
        List.append_assoc, ← hchars]
      rfl
  | case3 rest param left hparam params left' hrest ih =>
      obtain ⟨hchars, -, -⟩ := wellFormed_of_scanParam hparam
      rw [behind_param, hparam, within_ok, ok_bind, ih, hrest]
      simp [paramChars_cons]
  | case4 cs hmark => simp [paramChars]

/-- Reads the segments behind the first one, with their slashes. -/
def scanSegments : List Char → List String × List Char
  | '/' :: rest =>
    let (segments, left) := scanPlain (fun c => c == '?' || c == '#') rest
    ((segments.splitOn '/').map String.ofList, left)
  | cs => ([], cs)

/-- Where no slash follows, there are no segments. -/
theorem scanSegments_of_halts (hcs : Halts ['?', '#'] cs) :
    scanSegments cs = ([], cs) := by
  rw [scanSegments]
  rintro rest rfl
  exact absurd (halts_cons.mp hcs) (by decide)

/-- Segments are a first segment and the segments behind that. -/
theorem scanSegments_slash (cs : List Char) :
    scanSegments ('/' :: cs) =
      (String.ofList (scanPlain endsSegment cs).1 ::
        (scanSegments (scanPlain endsSegment cs).2).1,
        (scanSegments (scanPlain endsSegment cs).2).2) := by
  rcases hsegment : scanPlain endsSegment cs with ⟨segment, left⟩
  obtain ⟨rfl, hfree, hleft⟩ := (scanPlain_iff endsSegment_iff).mp hsegment
  have hslash : '/' ∉ segment := hfree '/' (by decide)
  have hmarks : ∀ c ∈ ['?', '#'], c ∉ segment :=
    fun c hc => hfree c (List.mem_cons_of_mem _ hc)
  by_cases hmore : ∃ rest, left = '/' :: rest
  · obtain ⟨rest, rfl⟩ := hmore
    rcases hrest : scanPlain (fun c => c == '?' || c == '#') rest with
      ⟨more, left⟩
    obtain ⟨rfl, hfree', hleft'⟩ := scanSegments_iff.mp hrest
    have hall : scanPlain (fun c => c == '?' || c == '#')
        (segment ++ '/' :: (more ++ left)) =
          (segment ++ '/' :: more, left) := by
      refine scanSegments_iff.mpr ⟨by simp, fun c hc hmem => ?_, hleft'⟩
      rcases List.mem_append.mp hmem with hmem | hmem
      · exact hmarks c hc hmem
      · rcases List.mem_cons.mp hmem with rfl | hmem
        · exact absurd hc (by decide)
        · exact hfree' c hc hmem
    rw [scanSegments, hall, scanSegments, hrest]
    simp only [List.splitOn_append_cons_self_of_not_mem hslash, List.map_cons]
  · have hend := hleft.other fun rest h => hmore ⟨rest, h⟩
    have hall := scanSegments_iff.mpr ⟨rfl, hmarks, hend⟩
    rw [scanSegments_of_halts hend, scanSegments, hall]
    simp only [List.splitOn_eq_singleton hslash, List.map_cons, List.map_nil]

/-- The machine reads the segments behind the first one in rounds, one segment
in each. -/
theorem behind_segments (hgiven : url.path ≠ []) (front cs : List Char) :
    behind front cs url =
      behind (front ++ pathChars (scanSegments cs).1) (scanSegments cs).2
        { url with path := url.path ++ (scanSegments cs).1 } := by
  induction hlength : cs.length using Nat.strong_induction_on
    generalizing front cs url with
  | _ n ih =>
      by_cases hslash : ∃ rest, cs = '/' :: rest
      · obtain ⟨rest, rfl⟩ := hslash
        rw [behind_cons (by decide) rfl, reading_path, if_neg fun h =>
          hgiven h.1,
            scanSegments_slash]
        rcases hscan : scanPlain endsSegment rest with ⟨segment, left⟩
        obtain ⟨rfl, -, -⟩ := (scanPlain_iff endsSegment_iff).mp hscan
        have hshort : left.length < n := by
          rw [List.length_cons, List.length_append] at hlength
          omega
        rw [@ih left.length hshort _ (by simp) _ left rfl]
        simp [pathChars]
      · have hnone : scanSegments cs = ([], cs) := by
          rw [scanSegments]
          rintro rest rfl
          exact hslash ⟨rest, rfl⟩
        simp [hnone, pathChars]

/-- The first segment is not empty; then the machine reads a whole path. -/
theorem behind_path (hblank : url.path = []) (front cs : List Char) :
    behind front cs url =
      within (front ++ cs) (scanPath cs) >>= fun r =>
        behind (front ++ pathChars r.1) r.2 { url with path := r.1 } := by
  by_cases hslash : ∃ rest, cs = '/' :: rest
  · obtain ⟨rest, rfl⟩ := hslash
    rw [behind_cons (by decide) rfl, reading_path, List.append_assoc,
      List.singleton_append]
    rcases hscan : scanPlain endsSegment rest with ⟨segment, left⟩
    obtain ⟨hrest, hfree, hleft⟩ := (scanPlain_iff endsSegment_iff).mp hscan
    cases segment with
    | nil =>
        have hpath :
            scanPath ('/' :: rest) = .error ⟨.emptyFirstSegment, rest⟩ := by
          rw [List.nil_append] at hrest
          subst hrest
          cases rest with
          | nil => rfl
          | cons c more =>
              rw [scanPath,
                if_pos ((endsSegment_iff c).mpr (halts_cons.mp hleft))]
        rw [if_pos ⟨hblank, rfl⟩, hpath]
        rfl
    | cons c segment =>
        have hc : ¬ endsSegment c = true := fun h =>
          hfree c ((endsSegment_iff c).mp h) List.mem_cons_self
        have hpath :
            scanPath ('/' :: rest) = .ok (scanSegments ('/' :: rest)) := by
          subst hrest
          rw [List.cons_append, scanPath, if_neg hc]
          rfl
        rw [if_neg fun h => List.cons_ne_nil c segment h.2, hpath,
          scanSegments_slash, hscan, behind_segments (by simp)]
        simp [hblank, pathChars]
  · have hnone : scanPath cs = .ok ([], cs) := by
      rw [scanPath]
      rintro rest rfl
      exact hslash ⟨rest, rfl⟩
    rw [hnone, within_ok, ok_bind, pathChars, List.flatMap_nil,
      List.append_nil, ← hblank]

/-- The machine reads a query where the scanner finds one. -/
theorem behind_query (hblank : url.query = none) (front cs : List Char) :
    behind front cs url =
      behind (front ++ queryChars (scanQuery cs).1) (scanQuery cs).2
        { url with query := (scanQuery cs).1 } := by
  by_cases hmark : ∃ rest, cs = '?' :: rest
  · obtain ⟨rest, rfl⟩ := hmark
    rw [behind_cons (by decide) rfl, reading_query]
    simp [scanQuery, queryChars]
  · have hnone : scanQuery cs = (none, cs) := by
      rw [scanQuery]
      rintro rest rfl
      exact hmark ⟨rest, rfl⟩
    rw [hnone, queryChars, Option.map_none, Option.getD_none,
      List.append_nil, ← hblank]

/-- The machine reads a fragment where the scanner finds one, and is done. -/
theorem behind_fragment (hblank : url.fragment = none) (hcs : Halts ['#'] cs)
    (front : List Char) :
    behind front cs url = .ok { url with fragment := scanFragment cs } := by
  cases cs with
  | nil => rw [behind_nil, scanFragment, ← hblank]
           simp
  | cons c rest =>
      obtain rfl := List.mem_singleton.mp (halts_cons.mp hcs)
      rw [behind_cons (by decide) rfl, reading_fragment]
      rfl

/-- Behind the identifier the machine reads what the scanners read one after the
other. -/
theorem behind_suffix (hcs : Halts [';', '/', '?', '#'] cs) (front : List Char)
    (method id : String) :
    behind front cs { blank with method, id } = within (front ++ cs) (do
      let (params, rest) ← scanParams cs
      let (path, rest) ← scanPath rest
      let (query, rest) := scanQuery rest
      return { method, id, params, path, query,
               fragment := scanFragment rest }) := by
  rw [behind_params, within_bind]
  rcases hparams : scanParams cs with stop | ⟨params, left₁⟩
  · rfl
  · obtain ⟨rfl, -, hleft₁⟩ := wellFormed_of_scanParams hcs hparams
    rw [within_ok, ok_bind, ok_bind, behind_path rfl, within_bind,
      List.append_assoc]
    rcases hpath : scanPath left₁ with stop | ⟨path, left₂⟩
    · rfl
    · obtain ⟨rfl, -, hleft₂⟩ := soundPath_of_scanPath hleft₁ hpath
      rcases hquery : scanQuery left₂ with ⟨query, left₃⟩
      obtain ⟨rfl, -, hleft₃⟩ := (scanQuery_iff hleft₂).mp hquery
      rw [within_ok, ok_bind, ok_bind, behind_query rfl, hquery,
        behind_fragment rfl hleft₃]
      dsimp only
      rw [hquery]
      rfl

/-- Behind the scheme the machine reads what the scanners read one after the
other. -/
theorem reading_method (front cs : List Char) :
    reading .method front cs blank = within (front ++ cs) (scanBody cs) := by
  have hends : ∀ c : Char, (c == ':') = true ↔ c ∈ [':'] := by simp
  rw [reading, run_eq, step, bind_assoc, takePlain_front (by decide) hends,
    ok_bind, scanBody]
  rcases hmethod : scanPlain (· == ':') cs with ⟨method, left⟩
  obtain ⟨hcs, -, hleft⟩ := scanMethod_iff.mp hmethod
  cases left with
  | nil =>
      have hrefuse := refusal_front (front ++ method) [] .unendedMethod
      rw [List.append_nil] at hcs hrefuse
      subst hcs
      dsimp only
      rw [if_pos (Nat.le_refl _), error_bind, ← hrefuse, within_error]
  | cons c rest =>
      obtain rfl := List.mem_singleton.mp (halts_cons.mp hleft)
      have hlong : ¬ (bytesOf (front ++ cs)).length ≤
          (bytesOf (front ++ method)).length := by
        rw [hcs, ← List.append_assoc, bytesOf_append (front ++ method),
          List.length_append, ← byteLength_eq (':' :: rest)]
        have := length_le_byteLength (':' :: rest)
        rw [List.length_cons] at this
        omega
      dsimp only
      rw [if_neg hlong]
      cases method with
      | nil =>
          rw [if_pos rfl, error_bind, ← refusal_front front cs, within_error]
      | cons d method =>
          have hplace : (bytesOf (front ++ d :: method)).length + 1 =
              (bytesOf (front ++ d :: method ++ [':'])).length := by
            rw [bytesOf_append (front ++ d :: method), List.length_append]
            rfl
          have hgiven : String.ofList (d :: method) ≠ "" := fun h =>
            List.cons_ne_nil d method (ofList_eq_empty.mp h)
          have htext : front ++ d :: method ++ [':'] ++ rest = front ++ cs := by
            simp [hcs]
          have hread :=
            @reading_id { blank with method := String.ofList (d :: method) } rfl
              (front ++ d :: method ++ [':']) rest
          rw [reading, htext] at hread
          rw [if_neg hgiven, ok_bind, resume, hplace]
          refine hread.trans ?_
          dsimp only
          rcases hid : scanId rest with stop | ⟨id, left⟩
          · rfl
          · obtain ⟨rfl, -, -, -, hend⟩ := scanId_iff.mp hid
            rw [← List.append_assoc] at htext
            rw [← htext]
            exact behind_suffix hend _ _ _

/-- A text begins with another one exactly if its bytes do. -/
theorem isPrefixOf_bytesOf (start cs : List Char) :
    (bytesOf start).isPrefixOf (bytesOf cs) = start.isPrefixOf cs := by
  rw [Bool.eq_iff_iff, List.isPrefixOf_iff_prefix, List.isPrefixOf_iff_prefix]
  exact Utf8.flatMap_prefix_iff

/-- From the beginning of a text that is not too short the machine reads what is
read from a list. -/
theorem run_scheme (cs : List Char) (hlong : ¬ byteLength cs < minLength) :
    run (bytesOf cs) .scheme ⟨0, blank⟩ = within cs (scan cs) := by
  have hstart := isPrefixOf_bytesOf ['d', 'i', 'd', ':'] cs
  have hstep : step (bytesOf cs) .scheme ⟨0, blank⟩ =
      if ['d', 'i', 'd', ':'].isPrefixOf cs then .ok (some .method, ⟨4, blank⟩)
      else .error (.refused ⟨0, .missingScheme⟩) := by
    rw [← hstart]
    rfl
  rw [run_eq, hstep]
  unfold scan
  rw [if_neg hlong]
  by_cases hscheme : ∃ rest, cs = 'd' :: 'i' :: 'd' :: ':' :: rest
  · obtain ⟨rest, rfl⟩ := hscheme
    exact reading_method ['d', 'i', 'd', ':'] rest
  · have hother : ¬ ['d', 'i', 'd', ':'].isPrefixOf cs = true := by
      rw [List.isPrefixOf_iff_prefix]
      rintro ⟨rest, rfl⟩
      exact hscheme ⟨rest, rfl⟩
    have hrefuse := refusal_front [] cs .missingScheme
    rw [List.nil_append] at hrefuse
    rw [if_neg hother]
    split
    · exact absurd ⟨_, rfl⟩ hscheme
    · rw [within_error, hrefuse]
      rfl

/-- Reading in place gives what reading from a list gives.  So it never tries to
take a piece that is not there. -/
theorem readInPlace_eq (text : String) :
    readInPlace text = (parse text).mapError .refused := by
  have hlength : (Utf8.encode text).length = byteLength text.toList := by
    rw [byteLength_eq, encode_eq_bytesOf]
  have hparse : (parse text).mapError .refused =
      within text.toList (scan text.toList) := by
    rw [parse]
    cases scan text.toList <;> rfl
  rw [readInPlace, hparse, hlength]
  split
  · next hshort =>
      have hrefuse := refusal_front [] text.toList .tooShort
      rw [List.nil_append] at hrefuse
      unfold scan
      rw [if_pos hshort, within_error, hrefuse]
      rfl
  · next hlong => exact run_scheme text.toList hlong

end Parts

end DidVault.DidUrl
