import DidVault.Did.Identifier
import DidVault.Proofs.Did.Url.Parts

/-!
# Reading DID URLs back

A text is read as a DID URL exactly if it is the text of a well-formed one, and
then as that one (`DidUrl.parse_iff`), and the identifier of a text is displayed
as that text (`DidUrl.accepts_grammar`).
-/

namespace DidVault.DidUrl

variable {cs id left : List Char} {url : DidUrl} {text : String}

/-- The method-specific identifier is read up to what comes behind it. -/
theorem scanId_iff :
    scanId cs = .ok (id, left) ↔
      cs = id ++ left ∧ id ≠ [] ∧ id.head? ≠ some ':' ∧
      Unbroken [';', '/', '?', '#'] id ∧
        Halts [';', '/', '?', '#'] left := by
  constructor
  · intro h
    unfold scanId at h
    split at h
    · cases h
    · next c rest =>
        split at h
        · cases h
        · next hc =>
            obtain ⟨hrest, hid, hleft⟩ := scanValue_iff.mp h
            rw [Bool.or_eq_true, not_or, endsId_iff, beq_iff_eq] at hc
            refine ⟨hrest, ?_, ?_, hid, hleft⟩
            · rintro rfl
              rw [List.nil_append] at hrest
              subst hrest
              exact hc.2 (halts_cons.mp hleft)
            · cases id with
              | nil => nofun
              | cons d more =>
                  obtain rfl := (List.cons.inj hrest).1
                  simpa using hc.1
  · rintro ⟨rfl, hgiven, hstart, hid, hleft⟩
    cases id with
    | nil => exact absurd rfl hgiven
    | cons c more =>
        have hends : ¬ (c == ':' || endsId c) = true := by
          rw [Bool.or_eq_true, not_or, endsId_iff, beq_iff_eq]
          refine ⟨fun h => hstart (congrArg some h), fun hmem => ?_⟩
          have hplain : c ≠ '%' := by
            rintro rfl
            exact absurd hmem (by decide)
          exact ((unbroken_cons hplain).mp hid).1 hmem
        rw [List.cons_append, scanId, if_neg hends]
        exact scanValue_iff.mpr ⟨rfl, hid, hleft⟩

/-- The characters behind the identifier. -/
def suffixChars (url : DidUrl) : List Char :=
  paramChars url.params ++ (pathChars url.path ++ (queryChars url.query
    ++ fragmentChars url.fragment))

/-- The characters behind `did:`. -/
def bodyChars (url : DidUrl) : List Char :=
  url.method.toList ++ ':' :: (url.id.toList ++ suffixChars url)

/-- A DID URL is written as `did:` and its parts. -/
theorem toList_render (url : DidUrl) :
    url.render.toList = 'd' :: 'i' :: 'd' :: ':' :: bodyChars url := by
  have hparams : ∀ params : List Param,
      (String.join (params.map Param.render)).toList = paramChars params := by
    intro params
    rw [String.toList_join, paramChars, List.flatMap_map]
  have hpath : ∀ path : List String,
      (String.join (path.map ("/" ++ ·))).toList = pathChars path := by
    intro path
    rw [String.toList_join, pathChars, List.flatMap_map]
    simp
  have hquery : ∀ query : Option String,
      ((query.map ("?" ++ ·)).getD "").toList = queryChars query := by
    intro query
    cases query <;> simp [queryChars]
  have hfragment : ∀ fragment : Option String,
      ((fragment.map ("#" ++ ·)).getD "").toList = fragmentChars fragment := by
    intro fragment
    cases fragment <;> simp [fragmentChars]
  simp [render, renderSuffix, bodyChars, suffixChars, hparams, hpath,
    hquery, hfragment]

/-- The method is what stands before the next `:`. -/
theorem scanMethod_iff {method : List Char} :
    scanPlain (· == ':') cs = (method, left) ↔
      cs = method ++ left ∧ (∀ c ∈ [':'], c ∉ method) ∧ Halts [':'] left :=
  scanPlain_iff (by simp)

/-- What is read behind `did:` is well formed, and stands there as it is
written. -/
theorem wellFormed_of_scanBody (h : scanBody cs = .ok url) :
    url.WellFormed ∧ cs = bodyChars url := by
  unfold scanBody at h
  split at h
  · cases h
  · cases h
  · next method mark rest hmethod hscan =>
      obtain ⟨rfl, hfree, hmark⟩ := scanMethod_iff.mp hscan
      obtain rfl := List.mem_singleton.mp (halts_cons.mp hmark)
      obtain ⟨⟨id, rest₁⟩, hid, h⟩ := bind_eq_ok.mp h
      obtain ⟨⟨params, rest₂⟩, hparams, h⟩ := bind_eq_ok.mp h
      obtain ⟨⟨path, rest₃⟩, hpath, h⟩ := bind_eq_ok.mp h
      dsimp only at hparams hpath h
      rcases hquery : scanQuery rest₃ with ⟨query, rest₄⟩
      rw [hquery] at h
      obtain rfl := Except.ok.inj h
      obtain ⟨rfl, hgiven, hstart, hunbroken, hrest₁⟩ := scanId_iff.mp hid
      obtain ⟨rfl, hall, hrest₂⟩ := wellFormed_of_scanParams hrest₁ hparams
      obtain ⟨rfl, hsound, hrest₃⟩ := soundPath_of_scanPath hrest₂ hpath
      obtain ⟨rfl, hfreeQuery, hrest₄⟩ := (scanQuery_iff hrest₃).mp hquery
      have hfragment : rest₄ = fragmentChars (scanFragment rest₄) :=
        (scanFragment_iff hrest₄).mp rfl
      constructor
      · exact ⟨fun h => hmethod (by simpa using h), by simpa using hfree, by
          simpa using hgiven,
            by simpa using hstart, by
              simpa using hunbroken, hall, hsound, hfreeQuery⟩
      · rw [bodyChars, suffixChars, ← hfragment, String.toList_ofList,
          String.toList_ofList]

/-- What is well formed is read behind `did:` as it is written. -/
theorem scanBody_of_wellFormed (hurl : url.WellFormed) :
    scanBody (bodyChars url) = .ok url := by
  obtain ⟨method, id, params, path, query, fragment⟩ := url
  have hend₁ : Halts ['#'] (fragmentChars fragment) :=
    halts_fragmentChars fragment
  have hend₂ : Halts ['?', '#'] (queryChars query ++ fragmentChars fragment) :=
    halts_queryChars hend₁
  have hend₃ : Halts ['/', '?', '#'] (pathChars path ++ (queryChars query
      ++ fragmentChars fragment)) := halts_pathChars hend₂
  have hend₄ : Halts [';', '/', '?', '#'] (paramChars params ++ (pathChars path
      ++ (queryChars query ++ fragmentChars fragment))) :=
        halts_paramChars hend₃
  have hquery := (scanQuery_iff hend₂).mpr ⟨rfl, hurl.query, hend₁⟩
  have hfragment := (scanFragment_iff hend₁).mpr rfl
  have hpath := scanPath_of_soundPath hurl.path hend₂
  have hparams := scanParams_of_wellFormed hurl.params hend₃
  have hgiven : id.toList ≠ [] :=
    fun h => hurl.idGiven (String.toList_eq_nil_iff.mp h)
  have hid := scanId_iff.mpr ⟨rfl, hgiven, hurl.idStart, hurl.id, hend₄⟩
  have hnamed : method.toList ≠ [] :=
    fun h => hurl.methodNamed (String.toList_eq_nil_iff.mp h)
  have hmark :
      Halts [':'] (':' ::
        (id.toList ++
          (paramChars params ++
            (pathChars path ++
              (queryChars query ++ fragmentChars fragment))))) := halts_cons.mpr
                (by decide)
  have hmethod := scanMethod_iff.mpr ⟨rfl, by simpa using hurl.method, hmark⟩
  rw [bodyChars, suffixChars, scanBody, hmethod]
  split
  · next h => cases h
  · next h => exact absurd (congrArg Prod.fst h) hnamed
  · next h =>
      cases h
      refine bind_eq_ok.mpr
        ⟨_, hid, bind_eq_ok.mpr ⟨_, hparams, bind_eq_ok.mpr ⟨_, hpath, ?_⟩⟩⟩
      dsimp only
      rw [hquery]
      simp only [hfragment, String.ofList_toList]
      rfl

/-- The parts are read just where they are written in a well-formed way. -/
theorem scanBody_iff :
    scanBody cs = .ok url ↔ url.WellFormed ∧ cs = bodyChars url := by
  constructor
  · exact wellFormed_of_scanBody
  · rintro ⟨hurl, rfl⟩
    exact scanBody_of_wellFormed hurl

/-- A text has no more characters than bytes. -/
theorem length_le_byteLength (cs : List Char) : cs.length ≤ byteLength cs := by
  induction cs with
  | nil => exact Nat.le_refl _
  | cons c cs ih =>
      have hc := c.utf8Size_pos
      rw [List.length_cons]
      show _ ≤ c.utf8Size + byteLength cs
      omega

/-- A method and an identifier that are not empty make a text long enough. -/
theorem minLength_le (hurl : url.WellFormed) :
    minLength ≤ byteLength ('d' :: 'i' :: 'd' :: ':' :: bodyChars url) := by
  have hmethod : 0 < url.method.toList.length :=
    List.length_pos_iff.mpr fun h =>
      hurl.methodNamed (String.toList_eq_nil_iff.mp h)
  have hid : 0 < url.id.toList.length :=
    List.length_pos_iff.mpr fun h =>
      hurl.idGiven (String.toList_eq_nil_iff.mp h)
  refine Nat.le_trans ?_ (length_le_byteLength _)
  simp only [bodyChars, minLength, List.length_cons, List.length_append]
  omega

/-- The scanner accepts just the texts of well-formed DID URLs. -/
theorem scan_iff :
    scan cs = .ok url ↔
      url.WellFormed ∧ cs = 'd' :: 'i' :: 'd' :: ':' :: bodyChars url := by
  constructor
  · intro h
    unfold scan at h
    split at h
    · cases h
    · split at h
      · obtain ⟨hurl, rfl⟩ := scanBody_iff.mp h
        exact ⟨hurl, rfl⟩
      · cases h
  · rintro ⟨hurl, rfl⟩
    rw [scan, if_neg (Nat.not_lt.mpr (minLength_le hurl))]
    exact scanBody_of_wellFormed hurl

/-- A text is read as a DID URL exactly if it is the text of that DID URL and
the parts of that are well formed. -/
theorem parse_iff :
    parse text = .ok url ↔ url.render = text ∧ url.WellFormed := by
  have hscan : parse text = .ok url ↔ scan text.toList = .ok url := by
    unfold parse
    cases scan text.toList <;> simp
  rw [hscan, scan_iff, ← toList_render, String.toList_inj, eq_comm, and_comm]

/-- Writing pieces behind one another writes them joined. -/
theorem foldl_eq_append_join {α : Type} {write : String → α → String}
    {piece : α → String}
    (hwrite : ∀ written a, write written a = written ++ piece a)
    (start : String) (as : List α) :
    as.foldl write start = start ++ String.join (as.map piece) := by
  induction as generalizing start with
  | nil => simp
  | cons a as ih =>
      rw [List.foldl_cons, ih, hwrite, List.map_cons, String.join_cons,
        String.append_assoc]

/-- A part is written with its mark in front of it. -/
theorem appendPart_eq (mark written : String) (part : Option String) :
    Identifier.appendPart mark written part =
      written ++ (part.map (mark ++ ·)).getD "" := by
  cases part with
  | none => exact String.append_empty.symm
  | some part => exact String.append_assoc ..

/-- Displaying an identifier writes its DID URL. -/
theorem display_eq_render (i : Identifier) : i.display = i.url.render := by
  have hparam : ∀ (written : String) (param : Param),
      Identifier.appendPart "=" (written ++ ";" ++ param.name) param.value =
        written ++ param.render := by
    intro written param
    rw [appendPart_eq, Param.render]
    cases param.value <;> simp [String.append_assoc]
  have hsegment : ∀ written segment : String,
      written ++ "/" ++ segment = written ++ ("/" ++ segment) :=
    fun written segment => String.append_assoc
  rw [Identifier.display, appendPart_eq, appendPart_eq,
    foldl_eq_append_join hsegment, foldl_eq_append_join hparam, render,
    renderSuffix]
  simp only [String.append_assoc]

/-- The grammar decides what is read, and as what: a text is accepted as a DID
URL exactly if it is the text of that DID URL and the parts of that are well
formed.  Identifiers are read from the same texts, and displayed as the texts
that they were read from. -/
theorem accepts_grammar (text : String) :
    (∀ url, parse text = .ok url ↔ url.render = text ∧ url.WellFormed) ∧
      (Identifier.parse text).map Identifier.display = (parse text).map fun _ =>
        text := by
  refine ⟨fun url => parse_iff, ?_⟩
  unfold Identifier.parse
  cases hparse : parse text with
  | error e => rfl
  | ok url =>
      have hdisplay := display_eq_render { Identifier.new with url }
      rw [(parse_iff.mp hparse).1] at hdisplay
      exact congrArg Except.ok hdisplay

/-- A value, a query and a fragment that are empty are not absent, and a `%`
hides the mark behind it. -/
example :
    parse "did:example:a%;b;p=;q/x//?#" =
    .ok ⟨"example", "a%;b", [⟨"p", some ""⟩, ⟨"q", none⟩], ["x", "", ""],
      some "", some ""⟩ := by
  decide +kernel

end DidVault.DidUrl
