import DidVault.Did.Url.Parser
import Mathlib.Data.List.TakeDrop
import Mathlib.Data.List.TakeWhile

/-!
# The grammar of DID URLs

A text is divided into parts by the marks `:`, `;`, `=`, `/`, `?` and `#`.
`Unbroken` says that a part which may hold escapes is not divided by some marks,
and `DidUrl.WellFormed` says of all parts of a DID URL which marks they are free
of and which of them are not empty.

Every scanner reads exactly what the grammar allows, and stops where the next
part begins (`Halts`): the statements below say so one scanner after the other,
in both directions.
-/

namespace DidVault

/-- No character of `marks` stands in the text outside an escape, and the last
escape is complete. A `%` escapes the character behind it. -/
def Unbroken (marks : List Char) : List Char → Prop
  | [] => True
  | ['%'] => False
  | '%' :: _ :: rest => Unbroken marks rest
  | c :: rest => c ∉ marks ∧ Unbroken marks rest

/-- The text is at its end, or goes on with a character of `marks`. -/
def Halts (marks : List Char) (cs : List Char) : Prop :=
  ∀ c ∈ cs.head?, c ∈ marks

/-- A parameter has a name, which does not run into its value, and neither of
them runs into what comes behind the parameter. -/
structure Param.WellFormed (param : Param) : Prop where
  named : param.name ≠ ""
  name : Unbroken ['=', ';', '/', '?', '#'] param.name.toList
  value : ∀ value ∈ param.value, Unbroken [';', '/', '?', '#'] value.toList

/-- No segment runs into the next part, and the first one is not empty. -/
structure DidUrl.SoundPath (path : List String) : Prop where
  segment : ∀ segment ∈ path, ∀ c ∈ ['/', '?', '#'], c ∉ segment.toList
  first : ∀ segment ∈ path.head?, segment ≠ ""

/-- The parts of a DID URL are such that each one ends where the next one
begins. -/
structure DidUrl.WellFormed (url : DidUrl) : Prop where
  methodNamed : url.method ≠ ""
  method : ':' ∉ url.method.toList
  idGiven : url.id ≠ ""
  idStart : url.id.toList.head? ≠ some ':'
  id : Unbroken [';', '/', '?', '#'] url.id.toList
  params : ∀ param ∈ url.params, param.WellFormed
  path : DidUrl.SoundPath url.path
  query : ∀ query ∈ url.query, '#' ∉ query.toList

section Halting

variable {marks more : List Char} {c : Char} {cs : List Char}

/-- The end of the text halts every scan. -/
@[simp] theorem halts_nil : Halts marks [] := nofun

/-- A scan halts before a mark. -/
@[simp] theorem halts_cons : Halts marks (c :: cs) ↔ c ∈ marks := by
  simp [Halts]

/-- What halts a scan halts it also with more marks. -/
theorem Halts.mono (h : Halts marks cs) (hsub : marks ⊆ more) : Halts more cs :=
  fun c hc => hsub (h c hc)

/-- A text that does not go on with the first of some marks goes on with another
one. -/
theorem Halts.other (h : Halts (c :: marks) cs)
    (hfirst : ∀ rest, cs = c :: rest → False) : Halts marks cs := by
  intro d hd
  obtain ⟨rest, rfl⟩ := List.head?_eq_some_iff.mp (Option.mem_def.mp hd)
  refine (List.mem_cons.mp (halts_cons.mp h)).resolve_left ?_
  rintro rfl
  exact hfirst rest rfl

/-- A character that neither is a lone `%` nor escapes another one is no `%`. -/
theorem ne_escape (hlone : c = '%' → cs = [] → False)
    (hescape : ∀ d ds, c = '%' → cs = d :: ds → False) : c ≠ '%' := by
  rintro rfl
  cases cs with
  | nil => exact hlone rfl rfl
  | cons d ds => exact hescape d ds rfl rfl

/-- A character that escapes nothing only has to be none of the marks. -/
theorem unbroken_cons (hc : c ≠ '%') :
    Unbroken marks (c :: cs) ↔ c ∉ marks ∧ Unbroken marks cs := by
  rw [Unbroken]
  · intro h _
    exact hc h
  · intro d rest h _
    exact hc h

end Halting

namespace DidUrl

section Scanners

variable {ends : Char → Bool} {marks cs taken left : List Char}

/-- What a scan with escapes takes is unbroken, and it stops where a mark
stands. -/
theorem unbroken_of_scanEscaped (hends : ∀ c, ends c = true ↔ c ∈ marks)
    (h : scanEscaped ends cs = .ok (taken, left)) :
    cs = taken ++ left ∧ Unbroken marks taken ∧ Halts marks left := by
  fun_induction scanEscaped ends cs generalizing taken left with
  | case1 =>
      cases h
      exact ⟨rfl, trivial, halts_nil⟩
  | case2 => cases h
  | case3 c rest more left' hrest ih =>
      cases h
      obtain ⟨rfl, htaken, hleft⟩ := ih hrest
      exact ⟨rfl, htaken, hleft⟩
  | case4 => cases h
  | case5 c rest _ _ hc =>
      cases h
      exact ⟨rfl, trivial, halts_cons.mpr ((hends c).mp hc)⟩
  | case6 c rest hlone hescape hc more left' hrest ih =>
      cases h
      obtain ⟨rfl, htaken, hleft⟩ := ih hrest
      refine ⟨rfl, (unbroken_cons (ne_escape hlone hescape)).mpr ⟨?_, htaken⟩,
        hleft⟩
      exact fun hmem => hc ((hends c).mpr hmem)
  | case7 => cases h

/-- A scan with escapes fails only at a `%` at the end of the text, and what
stands in front of that is unbroken. -/
theorem unbroken_of_scanEscaped_error {stop : Stop}
    (hends : ∀ c, ends c = true ↔ c ∈ marks)
    (h : scanEscaped ends cs = .error stop) :
    ∃ taken, cs = taken ++ ['%'] ∧ Unbroken marks taken ∧
      stop = ⟨.loneEscape, ['%']⟩ := by
  fun_induction scanEscaped ends cs generalizing stop with
  | case1 => cases h
  | case2 =>
      cases h
      exact ⟨[], rfl, trivial, rfl⟩
  | case3 => cases h
  | case4 c rest stop' hrest ih =>
      cases h
      obtain ⟨taken, rfl, htaken, hstop⟩ := ih hrest
      exact ⟨'%' :: c :: taken, rfl, htaken, hstop⟩
  | case5 => cases h
  | case6 => cases h
  | case7 c rest hlone hescape hc stop' hrest ih =>
      cases h
      obtain ⟨taken, rfl, htaken, hstop⟩ := ih hrest
      refine ⟨c :: taken, rfl,
        (unbroken_cons (ne_escape hlone hescape)).mpr ⟨?_, htaken⟩, hstop⟩
      exact fun hmem => hc ((hends c).mpr hmem)

/-- A scan with escapes takes what is unbroken, if a mark stands behind it. -/
theorem scanEscaped_of_unbroken (hends : ∀ c, ends c = true ↔ c ∈ marks)
    (hescape : '%' ∉ marks) (htaken : Unbroken marks taken)
    (hleft : Halts marks left) :
    scanEscaped ends (taken ++ left) = .ok (taken, left) := by
  fun_induction Unbroken marks taken with
  | case1 =>
      cases left with
      | nil => rfl
      | cons c rest =>
          have hc := halts_cons.mp hleft
          have hplain : c ≠ '%' := by
            rintro rfl
            exact hescape hc
          rw [List.nil_append, scanEscaped, if_pos ((hends c).mpr hc)]
          · intro h _
            exact hplain h
          · intro d ds h _
            exact hplain h
  | case2 => exact htaken.elim
  | case3 c rest ih =>
      rw [List.cons_append, List.cons_append, scanEscaped, ih htaken]
  | case4 c rest hlone hescaped ih =>
      have hplain : c ≠ '%' := ne_escape hlone hescaped
      have hc : ¬ ends c = true := fun h => htaken.1 ((hends c).mp h)
      rw [List.cons_append, scanEscaped, if_neg hc, ih htaken.2]
      · intro h _
        exact hplain h
      · intro d ds h _
        exact hplain h

/-- An escaping scan takes an unbroken run, which ends at a mark or with the
text. -/
theorem scanEscaped_iff (hends : ∀ c, ends c = true ↔ c ∈ marks)
    (hescape : '%' ∉ marks) :
    scanEscaped ends cs = .ok (taken, left) ↔
      cs = taken ++ left ∧ Unbroken marks taken ∧ Halts marks left := by
  constructor
  · exact unbroken_of_scanEscaped hends
  · rintro ⟨rfl, htaken, hleft⟩
    exact scanEscaped_of_unbroken hends hescape htaken hleft

/-- A plain scan takes everything up to the first mark. -/
theorem scanPlain_iff (hends : ∀ c, ends c = true ↔ c ∈ marks) :
    scanPlain ends cs = (taken, left) ↔
      cs = taken ++ left ∧ (∀ c ∈ marks, c ∉ taken) ∧ Halts marks left := by
  rw [scanPlain, List.span_eq_takeWhile_dropWhile, Prod.mk.injEq]
  constructor
  · rintro ⟨rfl, rfl⟩
    refine ⟨List.takeWhile_append_dropWhile.symm, fun c hc hmem =>
      ?_, fun c hc => ?_⟩
    · have hpass := List.mem_takeWhile_imp hmem
      simp [(hends c).mpr hc] at hpass
    · have hstop := List.head?_dropWhile_not (!ends ·) cs
      rw [Option.mem_def.mp hc] at hstop
      exact (hends c).mp (by simpa using hstop)
  · rintro ⟨rfl, htaken, hleft⟩
    have hpass : ∀ c ∈ taken, (!ends c) = true := by
      intro c hc
      rw [Bool.not_eq_true', Bool.eq_false_iff]
      exact fun h => htaken c ((hends c).mp h) hc
    have hhead : left.takeWhile (!ends ·) = [] ∧
        left.dropWhile (!ends ·) = left := by
      cases left with
      | nil => exact ⟨rfl, rfl⟩
      | cons c rest =>
          have hc := (hends c).mpr (halts_cons.mp hleft)
          simp [hc]
    rw [List.takeWhile_append_of_pos hpass, List.dropWhile_append_of_pos hpass,
      hhead.1, hhead.2, List.append_nil]
    exact ⟨rfl, rfl⟩

/-- The delimiters of an id. -/
theorem endsId_iff (c : Char) : endsId c = true ↔ c ∈ [';', '/', '?', '#'] := by
  simp [endsId, or_assoc]

/-- The delimiters of a parameter's name. -/
theorem endsName_iff (c : Char) :
    endsName c = true ↔ c ∈ ['=', ';', '/', '?', '#'] := by
  simp [endsName, endsId, or_assoc]

/-- The delimiters of a path's segment. -/
theorem endsSegment_iff (c : Char) :
    endsSegment c = true ↔ c ∈ ['/', '?', '#'] := by
  simp [endsSegment, or_assoc]

end Scanners

end DidUrl

end DidVault
