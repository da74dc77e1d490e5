import DidVault.Proofs.Did.Url.Grammar
import DidVault.Proofs.Text.Cut

/-!
# The parts behind the identifier

Parameters, path, query and fragment follow one another in this order, and each
of them ends where a mark of a later one stands.  Read from such a text, a part
is well formed and stands in the text as it is written; what is well formed is
read back.
-/

namespace DidVault.DidUrl

section Parameters

variable {cs left name value rest : List Char} {param : Param}
  {params : List Param}

/-- A parameter's name is a run without the delimiters of names, as far as it
goes. -/
theorem scanName_iff :
    scanEscaped endsName cs = .ok (name, left) ↔
      cs = name ++ left ∧ Unbroken ['=', ';', '/', '?', '#'] name ∧
        Halts ['=', ';', '/', '?', '#'] left :=
  scanEscaped_iff endsName_iff (by decide)

/-- A parameter's value is a run without the delimiters of ids, as far as it
goes. -/
theorem scanValue_iff :
    scanEscaped endsId cs = .ok (value, left) ↔
      cs = value ++ left ∧ Unbroken [';', '/', '?', '#'] value ∧
        Halts [';', '/', '?', '#'] left :=
  scanEscaped_iff endsId_iff (by decide)

/-- The characters of a parameter. -/
theorem toList_renderParam (param : Param) :
    param.render.toList =
      ';' :: (param.name.toList ++
        (param.value.map ('=' :: ·.toList)).getD []) := by
  unfold Param.render
  cases param.value <;> simp

/-- A parameter that is read is well formed, and stands in the text as it is
written. -/
theorem wellFormed_of_scanParam (h : scanParam cs = .ok (param, left)) :
    ';' :: cs = param.render.toList ++ left ∧ param.WellFormed ∧
      Halts [';', '/', '?', '#'] left := by
  rw [toList_renderParam, List.cons_append, List.cons_inj_right]
  unfold scanParam at h
  split at h
  · cases h
  · cases h
  · next name rest hname hscan =>
      obtain ⟨rfl, hunbroken, -⟩ := scanName_iff.mp hscan
      split at h
      · cases h
      · next value left' hscan' =>
          cases h
          obtain ⟨rfl, hunbroken', hleft⟩ := scanValue_iff.mp hscan'
          refine ⟨by simp, ⟨?_, ?_, ?_⟩, hleft⟩
          · intro hempty
            exact hname (by simpa using hempty)
          · simpa using hunbroken
          · rintro _ ⟨⟩
            simpa using hunbroken'
  · next name left' hname hplain hscan =>
      cases h
      obtain ⟨rfl, hunbroken, hleft⟩ := scanName_iff.mp hscan
      refine ⟨by simp, ⟨?_, ?_, nofun⟩, hleft.other hplain⟩
      · intro hempty
        exact hname (by simpa using hempty)
      · simpa using hunbroken

/-- A parameter that is well formed is read as it is written. -/
theorem scanParam_of_wellFormed (hparam : param.WellFormed)
    (hleft : Halts [';', '/', '?', '#'] left) :
    scanParam
      ((param.name.toList ++ (param.value.map ('=' :: ·.toList)).getD []) ++
        left) = .ok (param, left) := by
  obtain ⟨name, value⟩ := param
  have hname : name.toList ≠ [] :=
    fun h => hparam.named (String.toList_eq_nil_iff.mp h)
  cases value with
  | none =>
      have hscan : scanEscaped endsName (name.toList ++ left) =
          .ok (name.toList, left) :=
        scanName_iff.mpr
          ⟨rfl, hparam.name, hleft.mono (List.subset_cons_self ..)⟩
      rw [Option.map_none, Option.getD_none, List.append_nil, scanParam, hscan]
      split
      · next h => cases h
      · next h => exact absurd (congrArg Prod.fst (Except.ok.inj h)) hname
      · next rest _ h =>
          cases h
          exact absurd (halts_cons.mp hleft) (by decide)
      · next h =>
          cases h
          rw [String.ofList_toList]
  | some value =>
      have hscan :
          scanEscaped endsName (name.toList ++ '=' :: (value.toList ++ left)) =
            .ok (name.toList, '=' :: (value.toList ++ left)) :=
        scanName_iff.mpr ⟨rfl, hparam.name, halts_cons.mpr (by decide)⟩
      have hscan' : scanEscaped endsId (value.toList ++ left) =
          .ok (value.toList, left) :=
        scanValue_iff.mpr ⟨rfl, hparam.value value rfl, hleft⟩
      rw [Option.map_some, Option.getD_some, List.append_assoc,
        List.cons_append, scanParam, hscan]
      split
      · next h => cases h
      · next h => exact absurd (congrArg Prod.fst (Except.ok.inj h)) hname
      · next h =>
          cases h
          simp only [hscan', String.ofList_toList]
      · next hplain h =>
          cases h
          exact absurd rfl (hplain _)

/-- The characters of parameters, one behind the other. -/
def paramChars (params : List Param) : List Char :=
  params.flatMap (·.render.toList)

/-- The parameters are written one after the other. -/
theorem paramChars_cons (param : Param) (params : List Param) :
    paramChars (param :: params) = param.render.toList ++ paramChars params :=
  rfl

/-- After the id come parameters or what follows them, and either begins with a
delimiter. -/
theorem halts_paramChars (hleft : Halts ['/', '?', '#'] left) :
    Halts [';', '/', '?', '#'] (paramChars params ++ left) := by
  cases params with
  | nil => exact hleft.mono (List.subset_cons_self ..)
  | cons param params =>
      rw [paramChars_cons, toList_renderParam]
      exact halts_cons.mpr (by decide)

/-- Parameters that are read are well formed, and end where nothing more is a
parameter. -/
theorem wellFormed_of_scanParams (hcs : Halts [';', '/', '?', '#'] cs)
    (h : scanParams cs = .ok (params, left)) :
    cs = paramChars params ++ left ∧ (∀ param ∈ params, param.WellFormed) ∧
      Halts ['/', '?', '#'] left := by
  fun_induction scanParams cs generalizing params left with
  | case1 => cases h
  | case2 => cases h
  | case3 rest param left' hparam params' left'' hrest ih =>
      cases h
      obtain ⟨hchars, hwell, hleft⟩ := wellFormed_of_scanParam hparam
      obtain ⟨rfl, hall, hend⟩ := ih hleft hrest
      refine ⟨?_, ?_, hend⟩
      · rw [paramChars_cons, List.append_assoc]
        exact hchars
      · exact List.forall_mem_cons.mpr ⟨hwell, hall⟩
  | case4 cs hplain =>
      cases h
      exact ⟨rfl, nofun, hcs.other hplain⟩

/-- Parameters that are well formed are read as they are written. -/
theorem scanParams_of_wellFormed (hall : ∀ param ∈ params, param.WellFormed)
    (hleft : Halts ['/', '?', '#'] left) :
    scanParams (paramChars params ++ left) = .ok (params, left) := by
  induction params with
  | nil =>
      rw [paramChars, List.flatMap_nil, List.nil_append, scanParams]
      rintro rest rfl
      exact absurd (halts_cons.mp hleft) (by decide)
  | cons param params ih =>
      have hrest := ih fun p hp => hall p (List.mem_cons_of_mem _ hp)
      have hmore : Halts [';', '/', '?', '#'] (paramChars params ++ left) :=
        halts_paramChars hleft
      have hparam :=
        scanParam_of_wellFormed (hall param List.mem_cons_self) hmore
      rw [paramChars_cons, toList_renderParam, List.cons_append,
        List.cons_append, List.append_assoc, scanParams]
      split
      · next h =>
        rw [hparam] at h
        cases h
      · next h =>
        rw [hparam] at h
        cases h
        rw [hrest]

end Parameters

section Paths

variable {mark c : Char} {cs left : List Char} {chunks : List (List Char)}
  {path : List String}

/-- Chunks with a mark in front of each are joined by the mark behind the first
one. -/
theorem flatMap_cons_eq_intercalate (hchunks : chunks ≠ []) :
    chunks.flatMap (mark :: ·) = mark :: [mark].intercalate chunks := by
  induction chunks with
  | nil => exact absurd rfl hchunks
  | cons chunk rest ih =>
      cases rest with
      | nil => simp
      | cons next more =>
          rw [List.flatMap_cons, ih (List.cons_ne_nil _ _),
            List.intercalate_cons_cons]
          simp

/-- The characters of a path, each segment behind its slash. -/
def pathChars (path : List String) : List Char :=
  path.flatMap ('/' :: ·.toList)

/-- After the parameters comes a path or what follows it. -/
theorem halts_pathChars (hleft : Halts ['?', '#'] left) :
    Halts ['/', '?', '#'] (pathChars path ++ left) := by
  cases path with
  | nil => exact hleft.mono (List.subset_cons_self ..)
  | cons segment rest => exact halts_cons.mpr (by decide)

/-- A path is its segments with a `/` before each of them. -/
theorem pathChars_eq_intercalate (hpath : path ≠ []) :
    pathChars path = '/' :: ['/'].intercalate (path.map String.toList) := by
  rw [← flatMap_cons_eq_intercalate (fun h => hpath (List.map_eq_nil_iff.mp h)),
    pathChars, List.flatMap_map]

/-- The segments of a path together are the characters behind its first
slash. -/
theorem pathChars_splitOn (cs : List Char) :
    pathChars ((cs.splitOn '/').map String.ofList) = '/' :: cs := by
  have hchunks : (cs.splitOn '/').map String.ofList ≠ [] := by simp
  rw [pathChars_eq_intercalate hchunks, List.map_map]
  simp [Function.comp_def]

/-- The scan of a path takes everything before the first `?` or `#`. -/
theorem scanSegments_iff {taken : List Char} :
    scanPlain (fun c => c == '?' || c == '#') cs = (taken, left) ↔
      cs = taken ++ left ∧ (∀ c ∈ ['?', '#'], c ∉ taken) ∧
      Halts ['?', '#'] left :=
  scanPlain_iff (by simp)

/-- No path at all is a sound path. -/
theorem soundPath_nil : SoundPath [] where
  segment := nofun
  first := nofun

/-- The segments that a text without queries and fragments is divided into are
sound, if it begins with none of the marks. -/
theorem soundPath_splitOn (hc : c ≠ '/')
    (hfree : ∀ d ∈ ['?', '#'], d ∉ c :: cs) :
    SoundPath (((c :: cs).splitOn '/').map String.ofList) where
  segment segment hsegment d hd := by
    obtain ⟨chunk, hchunk, rfl⟩ := List.mem_map.mp hsegment
    rw [String.toList_ofList]
    rcases List.mem_cons.mp hd with rfl | hd
    · exact Text.not_mem_of_mem_splitOn hchunk
    · intro hmem
      have hchars : d ∈ pathChars (((c :: cs).splitOn '/').map String.ofList) :=
        List.mem_flatMap.mpr
          ⟨_, hsegment, List.mem_cons_of_mem _ (by simpa using hmem)⟩
      rw [pathChars_splitOn] at hchars
      rcases List.mem_cons.mp hchars with rfl | h
      · exact absurd hd (by decide)
      · exact hfree d hd h
  first segment hsegment := by
    have hslash : (c == '/') = false := by simpa using hc
    rw [List.splitOn_cons_eq_if_modifyHead, hslash] at hsegment
    cases hsplit : cs.splitOn '/' with
    | nil => exact absurd hsplit (List.splitOn_ne_nil _ _)
    | cons chunk rest =>
        rw [hsplit] at hsegment
        obtain rfl := Option.some.inj hsegment
        intro hempty
        simpa using congrArg String.toList hempty

/-- A path that is read has sound segments, and ends at the query or the
fragment. -/
theorem soundPath_of_scanPath (hcs : Halts ['/', '?', '#'] cs)
    (h : scanPath cs = .ok (path, left)) :
    cs = pathChars path ++ left ∧ SoundPath path ∧ Halts ['?', '#'] left := by
  unfold scanPath at h
  split at h
  · next rest =>
      split at h
      · cases h
      · next c more =>
          split at h
          · cases h
          · next hc =>
              split at h
              next segments left' hscan =>
              cases h
              obtain ⟨hrest, hfree, hleft⟩ := scanSegments_iff.mp hscan
              have hplain : c ∉ ['/', '?', '#'] :=
                fun hmem => hc ((endsSegment_iff c).mpr hmem)
              cases segments with
              | nil =>
                  rw [List.nil_append] at hrest
                  subst hrest
                  exact absurd
                    (List.mem_cons_of_mem _ (halts_cons.mp hleft)) hplain
              | cons d segments =>
                  obtain rfl := (List.cons.inj hrest).1
                  refine ⟨?_, soundPath_splitOn ?_ hfree, hleft⟩
                  · rw [pathChars_splitOn, hrest]
                    rfl
                  · rintro rfl
                    exact hplain List.mem_cons_self
  · next hslash =>
      cases h
      exact ⟨rfl, ⟨nofun, nofun⟩, hcs.other hslash⟩

/-- A sound path divides the characters behind its first slash into its
segments. -/
theorem chars_of_soundPath (hpath : SoundPath path) (hsome : path ≠ []) :
    ∃ c cs, pathChars path = '/' :: c :: cs ∧ c ∉ ['/', '?', '#'] ∧
      (∀ d ∈ ['?', '#'], d ∉ c :: cs) ∧
      (c :: cs).splitOn '/' = path.map String.toList := by
  obtain ⟨first, rest, rfl⟩ := List.exists_cons_of_ne_nil hsome
  obtain ⟨c, others, hfirst⟩ :=
    List.exists_cons_of_ne_nil (l := first.toList) (by
      intro h
      exact hpath.first first rfl (String.toList_eq_nil_iff.mp h))
  obtain ⟨cs, hchars⟩ : ∃ cs, pathChars (first :: rest) = '/' :: c :: cs := by
    rw [pathChars, List.flatMap_cons, hfirst]
    exact ⟨_, rfl⟩
  have hjoined := pathChars_eq_intercalate hsome
  rw [hchars, List.cons_inj_right] at hjoined
  refine ⟨c, cs, hchars, ?_, ?_, ?_⟩
  · intro hmem
    refine hpath.segment first List.mem_cons_self c hmem ?_
    rw [hfirst]
    exact List.mem_cons_self
  · intro d hd hmem
    have hin : d ∈ pathChars (first :: rest) :=
      hchars ▸ List.mem_cons_of_mem _ hmem
    obtain ⟨segment, hsegment, h⟩ := List.mem_flatMap.mp hin
    rcases List.mem_cons.mp h with rfl | h
    · exact absurd hd (by decide)
    · exact hpath.segment segment hsegment d (List.mem_cons_of_mem _ hd) h
  · rw [hjoined]
    refine List.splitOn_intercalate '/' (fun chunk hchunk => ?_)
      (List.cons_ne_nil _ _)
    obtain ⟨segment, hsegment, rfl⟩ := List.mem_map.mp hchunk
    exact hpath.segment segment hsegment '/' (by decide)

/-- A sound path is read as it is written. -/
theorem scanPath_of_soundPath (hpath : SoundPath path)
    (hleft : Halts ['?', '#'] left) :
    scanPath (pathChars path ++ left) = .ok (path, left) := by
  by_cases hsome : path = []
  · rw [hsome, pathChars, List.flatMap_nil, List.nil_append, scanPath]
    rintro rest rfl
    exact absurd (halts_cons.mp hleft) (by decide)
  · obtain ⟨c, cs, hchars, hc, hfree, hsplit⟩ := chars_of_soundPath hpath hsome
    have hscan := scanSegments_iff.mpr ⟨rfl, hfree, hleft⟩
    have hplain : ¬ endsSegment c = true :=
      fun h => hc ((endsSegment_iff c).mp h)
    rw [List.cons_append] at hscan
    rw [hchars, List.cons_append, List.cons_append]
    unfold scanPath
    simp only [if_neg hplain, hscan, hsplit, List.map_map]
    simp [Function.comp_def]

end Paths

section Ends

variable {cs left : List Char} {query fragment : Option String}

/-- The characters of a query, behind its question mark. -/
def queryChars (query : Option String) : List Char :=
  (query.map ('?' :: ·.toList)).getD []

/-- The characters of a fragment, behind its hash. -/
def fragmentChars (fragment : Option String) : List Char :=
  (fragment.map ('#' :: ·.toList)).getD []

/-- A fragment, if there is one, begins with a `#`. -/
theorem halts_fragmentChars (fragment : Option String) :
    Halts ['#'] (fragmentChars fragment) := by
  cases fragment with
  | none => exact halts_nil
  | some f => exact halts_cons.mpr (by decide)

/-- A query, if there is one, begins with a `?`. -/
theorem halts_queryChars (hleft : Halts ['#'] left) :
    Halts ['?', '#'] (queryChars query ++ left) := by
  cases query with
  | none => exact hleft.mono (List.subset_cons_self ..)
  | some q => exact halts_cons.mpr (by decide)

/-- The query is what stands between the `?` and the first `#`. -/
theorem scanQuery_iff (hcs : Halts ['?', '#'] cs) :
    scanQuery cs = (query, left) ↔
      cs = queryChars query ++ left ∧ (∀ q ∈ query, '#' ∉ q.toList) ∧
      Halts ['#'] left := by
  have hscan : ∀ {rest taken left}, scanPlain (· == '#') rest = (taken, left) ↔
      rest = taken ++ left ∧ (∀ c ∈ ['#'], c ∉ taken) ∧ Halts ['#'] left :=
    scanPlain_iff (by simp)
  constructor
  · intro h
    unfold scanQuery at h
    split at h
    · next rest =>
        split at h
        next taken left' htaken =>
        cases h
        obtain ⟨rfl, hfree, hleft⟩ := hscan.mp htaken
        exact ⟨by simp [queryChars], by simpa using hfree, hleft⟩
    · next hmark =>
        cases h
        exact ⟨rfl, nofun, hcs.other hmark⟩
  · rintro ⟨rfl, hfree, hleft⟩
    cases query with
    | none =>
        rw [queryChars, Option.map_none, Option.getD_none,
          List.nil_append, scanQuery]
        rintro rest rfl
        exact absurd (halts_cons.mp hleft) (by decide)
    | some q =>
        have htaken := hscan.mpr ⟨rfl, by simpa using hfree, hleft⟩
        rw [queryChars, Option.map_some, Option.getD_some, List.cons_append,
          scanQuery, htaken]
        simp only [String.ofList_toList]

/-- The fragment is all that follows the `#`. -/
theorem scanFragment_iff (hcs : Halts ['#'] cs) :
    scanFragment cs = fragment ↔ cs = fragmentChars fragment := by
  cases cs with
  | nil => cases fragment <;> simp [scanFragment, fragmentChars]
  | cons c rest =>
      obtain rfl := List.mem_singleton.mp (halts_cons.mp hcs)
      cases fragment with
      | none => simp [scanFragment, fragmentChars]
      | some f => simp [scanFragment, fragmentChars, ← String.toList_inj]

end Ends

end DidVault.DidUrl
