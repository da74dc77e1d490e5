import DidVault.Proofs.Did.Url.InPlace

/-!
# Where a text stops being a DID URL

A scanner that stops has read something that could have gone on: put behind what
was read, the characters `x:x` complete every part that can be expected there
(`filler`).  So the text in front of a refusal is the beginning of some DID URL,
and with the machine that reads in place this makes `parses_safely`: reading
ends, never cuts a character, and a refusal stands where the text goes wrong.
-/

namespace DidVault

variable {marks cs ds : List Char}

/-- Two unbroken runs make one. -/
theorem Unbroken.append (hcs : Unbroken marks cs) (hds : Unbroken marks ds) :
    Unbroken marks (cs ++ ds) := by
  fun_induction Unbroken marks cs with
  | case1 => exact hds
  | case2 => exact hcs.elim
  | case3 c rest ih => exact ih hcs
  | case4 c rest hlone hescape ih =>
      exact (unbroken_cons (ne_escape hlone hescape)).mpr ⟨hcs.1, ih hcs.2⟩

namespace DidUrl

open Json

variable {stop : Stop} {url : DidUrl}

/-- A method with an identifier, and also an id, a name, a value or a
segment. -/
def filler : List Char := ['x', ':', 'x']

/-- The filler is an unbroken run unless its characters are marks. -/
theorem unbroken_filler (hx : 'x' ∉ marks) (hcolon : ':' ∉ marks) :
    Unbroken marks filler := by
  simp [filler, Unbroken, hx, hcolon]

/-- What stands in front of a lone `%` goes on with the filler. -/
theorem completed_of_scanEscaped {ends : Char → Bool}
    (hends : ∀ c, ends c = true ↔ c ∈ marks) (hx : 'x' ∉ marks)
    (hcolon : ':' ∉ marks) (h : scanEscaped ends cs = .error stop) :
    ∃ front, cs = front ++ stop.unread ∧ Unbroken marks (front ++ filler) := by
  obtain ⟨front, rfl, hfront, rfl⟩ := unbroken_of_scanEscaped_error hends h
  exact ⟨front, rfl, hfront.append (unbroken_filler hx hcolon)⟩

/-- What was read of an id goes on with the filler. -/
theorem completed_of_scanId (h : scanId cs = .error stop) :
    ∃ front, cs = front ++ stop.unread ∧ (front ++ filler).head? ≠ some ':' ∧
      Unbroken [';', '/', '?', '#'] (front ++ filler) := by
  have hfiller : Unbroken [';', '/', '?', '#'] filler :=
    unbroken_filler (by decide) (by decide)
  unfold scanId at h
  split at h
  · cases h
    exact ⟨[], rfl, by decide, hfiller⟩
  · next c rest =>
      split at h
      · cases h
        exact ⟨[], rfl, by decide, hfiller⟩
      · next hc =>
          obtain ⟨front, hcs, hfront⟩ :=
            completed_of_scanEscaped endsId_iff (by decide) (by decide) h
          refine ⟨front, hcs, ?_, hfront⟩
          cases front with
          | nil => decide
          | cons d front =>
              obtain rfl := (List.cons.inj hcs).1
              intro hhead
              obtain rfl := Option.some.inj hhead
              exact hc rfl

/-- A parameter that is refused becomes one with the filler. -/
theorem completed_of_scanParam (h : scanParam cs = .error stop) :
    ∃ (front : List Char) (param : Param), cs = front ++ stop.unread ∧
      param.WellFormed ∧
      ';' :: (front ++ filler) = param.render.toList := by
  have hnamed : ∀ front : List Char,
      Unbroken ['=', ';', '/', '?', '#'] (front ++ filler) →
      Param.WellFormed ⟨String.ofList (front ++ filler), none⟩ := by
    intro front hfront
    refine ⟨fun hempty => ?_, by simpa using hfront, nofun⟩
    simpa [filler] using ofList_eq_empty.mp hempty
  unfold scanParam at h
  split at h
  · next stop' hname =>
      cases h
      obtain ⟨front, rfl, hfront⟩ :=
        completed_of_scanEscaped endsName_iff (by decide) (by decide) hname
      exact ⟨front, _, rfl, hnamed front hfront, by simp [toList_renderParam]⟩
  · cases h
    refine ⟨[], _, rfl, hnamed [] ?_, by simp [toList_renderParam]⟩
    exact unbroken_filler (by decide) (by decide)
  · next name rest hgiven hname =>
      split at h
      · next stop' hvalue =>
          cases h
          obtain ⟨rfl, hunbroken, -⟩ := scanName_iff.mp hname
          obtain ⟨front, rfl, hfront⟩ :=
            completed_of_scanEscaped endsId_iff (by decide) (by decide) hvalue
          refine ⟨name ++ '=' :: front,
            ⟨String.ofList name, some (String.ofList (front ++ filler))⟩, by
              simp, ⟨?_, ?_, ?_⟩,
            by simp [toList_renderParam]⟩
          · exact fun hempty => hgiven (ofList_eq_empty.mp hempty)
          · simpa using hunbroken
          · rintro _ ⟨⟩
            simpa using hfront
      · cases h
  · cases h

/-- Parameters of which one is refused become parameters with the filler. -/
theorem completed_of_scanParams (h : scanParams cs = .error stop) :
    ∃ front params, cs = front ++ stop.unread ∧
      (∀ param ∈ params, param.WellFormed) ∧
      front ++ filler = paramChars params := by
  fun_induction scanParams cs generalizing stop with
  | case1 rest stop' hparam =>
      cases h
      obtain ⟨front, param, rfl, hwell, hchars⟩ := completed_of_scanParam hparam
      refine ⟨';' :: front, [param], rfl,
        List.forall_mem_singleton.mpr hwell, ?_⟩
      rw [paramChars_cons, ← hchars]
      simp [paramChars]
  | case2 rest param left hparam stop' hrest ih =>
      cases h
      obtain ⟨hread, hwell, -⟩ := wellFormed_of_scanParam hparam
      obtain ⟨front, params, rfl, hall, hchars⟩ := ih hrest
      refine ⟨param.render.toList ++ front, param :: params, ?_,
        List.forall_mem_cons.mpr ⟨hwell, hall⟩, ?_⟩
      · rw [List.append_assoc]
        exact hread
      · rw [paramChars_cons, ← hchars, List.append_assoc]
  | case3 => cases h
  | case4 => cases h

/-- A path is refused behind its first slash. -/
theorem eq_of_scanPath_error (h : scanPath cs = .error stop) :
    cs = '/' :: stop.unread := by
  unfold scanPath at h
  split at h
  · next rest =>
      split at h
      · cases h
        rfl
      · next c more =>
          split at h
          · cases h
            rfl
          · cases h
  · cases h

/-- The filler is a sound path. -/
theorem soundPath_filler : SoundPath [String.ofList filler] where
  segment segment hsegment := by
    obtain rfl := List.mem_singleton.mp hsegment
    simp [filler]
  first segment hsegment := by
    obtain rfl := Option.some.inj hsegment
    decide

/-- Parts up to the path that are well formed one by one make a DID URL. -/
theorem wellFormed_of_parts {method id : List Char} {params : List Param}
    {path : List String} (hnamed : method ≠ []) (hmethod : ':' ∉ method)
    (hgiven : id ≠ []) (hstart : id.head? ≠ some ':')
    (hid : Unbroken [';', '/', '?', '#'] id)
    (hparams : ∀ param ∈ params, param.WellFormed) (hpath : SoundPath path) :
    DidUrl.WellFormed
      ⟨String.ofList method, String.ofList id, params, path, none, none⟩ where
  methodNamed h := hnamed (ofList_eq_empty.mp h)
  method := by simpa using hmethod
  idGiven h := hgiven (ofList_eq_empty.mp h)
  idStart := by simpa using hstart
  id := by simpa using hid
  params := hparams
  path := hpath
  query := nofun

/-- What is read behind the scheme before it is refused goes on with the filler
to a DID URL. -/
theorem completed_of_scanBody (h : scanBody cs = .error stop) :
    ∃ (front : List Char) (url : DidUrl), cs = front ++ stop.unread ∧
      url.WellFormed ∧
      front ++ filler = bodyChars url := by
  have hshort : ∀ front : List Char, ':' ∉ front → ∃ url : DidUrl,
      url.WellFormed ∧
      front ++ filler = bodyChars url := by
    intro front hfree
    have hid : Unbroken [';', '/', '?', '#'] ['x'] := by simp [Unbroken]
    refine ⟨_, @wellFormed_of_parts (front ++ ['x']) ['x'] [] [] (by simp) ?_
      (List.cons_ne_nil _ _) (by decide) hid
        (List.forall_mem_nil _) soundPath_nil, ?_⟩
    · simpa using hfree
    · simp [bodyChars, suffixChars, filler, paramChars, pathChars, queryChars,
        fragmentChars]
  unfold scanBody at h
  split at h
  · next method hmethod =>
      cases h
      obtain ⟨rfl, hfree, -⟩ := scanMethod_iff.mp hmethod
      obtain ⟨url, hurl, hchars⟩ := hshort method (hfree ':' (by decide))
      exact ⟨method, url, rfl, hurl, hchars⟩
  · cases h
    obtain ⟨url, hurl, hchars⟩ := hshort [] (List.not_mem_nil)
    exact ⟨[], url, rfl, hurl, hchars⟩
  · next method mark rest hnamed hmethod =>
      obtain ⟨rfl, hfree, hmark⟩ := scanMethod_iff.mp hmethod
      obtain rfl := List.mem_singleton.mp (halts_cons.mp hmark)
      have hcolon : ':' ∉ method := hfree ':' (by decide)
      rcases hid : scanId rest with stop' | ⟨id, left₁⟩
      · rw [hid] at h
        cases h
        obtain ⟨front, rfl, hstart, hunbroken⟩ := completed_of_scanId hid
        refine ⟨method ++ ':' :: front, _, by simp,
          wellFormed_of_parts hnamed hcolon (by simp [filler]) hstart hunbroken
            (List.forall_mem_nil _) soundPath_nil, ?_⟩
        simp [bodyChars, suffixChars, paramChars, pathChars, queryChars,
          fragmentChars]
      · obtain ⟨rfl, hgiven, hstart, hunbroken, hleft₁⟩ := scanId_iff.mp hid
        rw [hid, ok_bind] at h
        dsimp only at h
        rcases hparams : scanParams left₁ with stop' | ⟨params, left₂⟩
        · rw [hparams] at h
          cases h
          obtain ⟨front, params, rfl, hall, hchars⟩ :=
            completed_of_scanParams hparams
          refine ⟨method ++ ':' :: (id ++ front), _, by simp,
            wellFormed_of_parts hnamed hcolon hgiven hstart hunbroken hall
              soundPath_nil, ?_⟩
          simp [bodyChars, suffixChars, ← hchars, pathChars, queryChars,
            fragmentChars]
        · obtain ⟨rfl, hall, hleft₂⟩ := wellFormed_of_scanParams hleft₁ hparams
          rw [hparams, ok_bind] at h
          dsimp only at h
          rcases hpath : scanPath left₂ with stop' | ⟨path, left₃⟩
          · rw [hpath] at h
            cases h
            obtain rfl := eq_of_scanPath_error hpath
            refine ⟨method ++ ':' :: (id ++ (paramChars params ++ ['/'])),
              _, by
                simp, wellFormed_of_parts hnamed hcolon hgiven hstart hunbroken
                  hall soundPath_filler, ?_⟩
            simp [bodyChars, suffixChars, pathChars, queryChars, fragmentChars]
          · rw [hpath] at h
            cases h

/-- A text is refused behind something that can go on; with the scheme in front
of it, it can go on to a DID URL. -/
theorem completed_of_scan (h : scan cs = .error stop) :
    ∃ front, cs = front ++ stop.unread ∧
      (minLength ≤ byteLength cs → ['d', 'i', 'd', ':'] <+: cs →
        ∃ url : DidUrl, url.WellFormed ∧
        front ++ filler = url.render.toList) := by
  unfold scan at h
  split at h
  · next hshort =>
      cases h
      exact ⟨[], rfl, fun hlong => absurd hshort (Nat.not_lt.mpr hlong)⟩
  · split at h
    · obtain ⟨front, url, rfl, hurl, hchars⟩ := completed_of_scanBody h
      refine ⟨'d' :: 'i' :: 'd' :: ':' :: front, rfl, fun _ _ =>
        ⟨url, hurl, ?_⟩⟩
      rw [toList_render, ← hchars]
      rfl
    · next hother =>
        cases h
        refine ⟨[], rfl, fun _ hscheme => ?_⟩
        obtain ⟨rest, hrest⟩ := hscheme
        exact absurd hrest.symm (hother rest)

/-- A refusal stands behind the beginning of some DID URL, if the text is long
enough and begins with `did:`. -/
theorem completed_of_parse {text : String} {e : ParseError}
    (h : parse text = .error e) :
    ∃ front behind, text = front ++ behind ∧
      (Utf8.encode front).length = e.offset ∧
      (minLength ≤ (Utf8.encode text).length → (∃ rest, text = "did:" ++ rest) →
        ∃ more url, parse (front ++ more) = .ok url) := by
  unfold parse at h
  split at h
  · cases h
  · next stop hscan =>
      cases h
      obtain ⟨front, hcs, hmore⟩ := completed_of_scan hscan
      refine ⟨String.ofList front, String.ofList stop.unread, ?_, ?_,
        fun hlong hscheme => ?_⟩
      · rw [← String.ofList_append, ← hcs, String.ofList_toList]
      · rw [encode_ofList, byteLength_eq, byteLength_eq, hcs, bytesOf_append,
          List.length_append, Nat.add_sub_cancel]
      · rw [encode_eq_bytesOf, ← byteLength_eq] at hlong
        obtain ⟨rest, rfl⟩ := hscheme
        obtain ⟨url, hurl, hchars⟩ := hmore hlong ⟨rest.toList, by simp⟩
        refine ⟨String.ofList filler, url, parse_iff.mpr ⟨?_, hurl⟩⟩
        rw [← String.ofList_append, hchars, String.ofList_toList]

/-- Reading a DID URL is safe and says where a text goes wrong.  Read in place,
every text has the answer that `parse` gives, so the machine ends without asking
for a piece that is not there, and each of its steps behind the scheme stops or
moves the cursor forward.  A refusal names a place between two characters of the
text, and what stands in front of it begins a DID URL, if the text is long
enough and has the scheme. -/
theorem parses_safely (text : String) :
    readInPlace text = (parse text).mapError .refused ∧
      (∀ start stop, readInPlace text ≠ .error (.noPiece start stop)) ∧
      (∀ phase next s s', phase ≠ .scheme →
        step (Utf8.encode text) phase s = .ok (some next, s') →
          s.place < s'.place ∧ s'.place ≤ (Utf8.encode text).length) ∧
      ∀ e, parse text = .error e →
        e.offset ≤ (Utf8.encode text).length ∧
        Utf8.isBoundary (Utf8.encode text) e.offset = true ∧
        ∃ front behind, text = front ++ behind ∧
          (Utf8.encode front).length = e.offset ∧
          (minLength ≤ (Utf8.encode text).length →
            (∃ rest, text = "did:" ++ rest) →
              ∃ more url, parse (front ++ more) = .ok url) := by
  refine ⟨readInPlace_eq text, fun start stop h =>
    ?_, fun phase next s s' hphase hstep =>
      (step_forward hstep).2 hphase, fun e h => ?_⟩
  · rw [readInPlace_eq] at h
    cases hparse : parse text <;> rw [hparse] at h <;> cases h
  · obtain ⟨front, behind, rfl, hoffset, hmore⟩ := completed_of_parse h
    have hencode : Utf8.encode (front ++ behind) =
        bytesOf (front.toList ++ behind.toList) := by
      rw [encode_eq_bytesOf, String.toList_append]
    have hplace : e.offset = (bytesOf front.toList).length := hoffset.symm
    refine ⟨?_, ?_, front, behind, rfl, hoffset, hmore⟩
    · rw [hencode, hplace, bytesOf_append, List.length_append]
      exact Nat.le_add_right _ _
    · rw [hencode, hplace]
      exact Utf8.isBoundary_front _ _

/-- Two characters of two bytes, one of them escaped, stand in front of a
parameter without a name: the step that reads them moves the cursor over all
their bytes, and the refusal stands behind them. -/
theorem parses_safely_of_unnamed_parameter :
    step (Utf8.encode "did:m:ä%é;=x") .id ⟨6, { blank with method := "m" }⟩ =
        .ok (some .paramName, ⟨12, { blank with method := "m", id := "ä%é" }⟩) ∧
      (6 < 12 ∧ 12 ≤ (Utf8.encode "did:m:ä%é;=x").length) ∧
      parse "did:m:ä%é;=x" = .error ⟨12, .emptyParamName⟩ ∧
      ∃ front behind, "did:m:ä%é;=x" = front ++ behind ∧
      (Utf8.encode front).length = 12 ∧
        ∃ more url, parse (front ++ more) = .ok url := by
  have hstep :
      step (Utf8.encode "did:m:ä%é;=x") .id ⟨6, { blank with method := "m" }⟩ =
        .ok (some .paramName,
          ⟨12, { blank with method := "m", id := "ä%é" }⟩) := by
    decide +kernel
  have hparse : parse "did:m:ä%é;=x" = .error ⟨12, .emptyParamName⟩ := by
    decide +kernel
  obtain ⟨-, -, hforward, hplaced⟩ := parses_safely "did:m:ä%é;=x"
  obtain ⟨-, -, front, behind, htext, hoffset, hmore⟩ := hplaced _ hparse
  exact ⟨hstep, hforward .id _ _ _ nofun hstep, hparse, front, behind,
    htext, hoffset, hmore (by decide +kernel) ⟨"m:ä%é;=x", by decide⟩⟩

end DidUrl

end DidVault
