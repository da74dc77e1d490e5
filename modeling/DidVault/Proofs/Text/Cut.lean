import DidVault.Text.Cut

/-!
# Where texts are cut

A cut at a character is known once the text is written as what stands before the
first such character and what stands behind it (`cutChars_append`), and every
text with that character can be written so (`cutChars_cases`).  A pattern
without a character is found in a text exactly when it is found on one side of
it (`infix_append_cons`); so a text that is put together of parts with
separators between them is searched part by part (`infix_separated`), and it is
split into these parts again (`splitOn_separated`).
-/

namespace DidVault.Text

variable {mark c : Char} {cs part before behind : List Char}

/-- Without a mark nothing is cut off. -/
theorem cutChars_of_not_mem (hmark : mark ∉ cs) :
    cutChars mark cs = (cs, none) := by
  have hall : ∀ c ∈ cs, (c != mark) = true := by
    intro c hc
    exact bne_iff_ne.mpr fun h => hmark (h ▸ hc)
  have hnothing : cs.dropWhile (· != mark) = [] := by
    rw [← List.append_nil cs, List.dropWhile_append_of_pos hall,
      List.dropWhile_nil]
  rw [cutChars, hnothing]

/-- The cut is at the first mark, which belongs to neither part. -/
theorem cutChars_append (hmark : mark ∉ before) (behind : List Char) :
    cutChars mark (before ++ mark :: behind) = (before, some behind) := by
  have hall : ∀ c ∈ before, (c != mark) = true := by
    intro c hc
    exact bne_iff_ne.mpr fun h => hmark (h ▸ hc)
  have hbehind : (before ++ mark :: behind).dropWhile (· != mark) =
      mark :: behind := by
    rw [List.dropWhile_append_of_pos hall]
    simp
  have hbefore : (before ++ mark :: behind).takeWhile (· != mark) = before := by
    rw [List.takeWhile_append_of_pos hall]
    simp
  rw [cutChars, hbehind, hbefore]

/-- A text has no such character, or it is cut at the first one. -/
theorem cutChars_cases (mark : Char) (cs : List Char) :
    mark ∉ cs ∨ ∃ before behind, cs = before ++ mark :: behind ∧
      mark ∉ before := by
  by_cases hmem : mark ∈ cs
  · obtain ⟨before, behind, rfl, hbefore⟩ := List.eq_append_cons_of_mem hmem
    exact .inr ⟨before, behind, rfl, hbefore⟩
  · exact .inl hmem

/-- What stands before a cut holds the character no more, and everything in it
stood in the text. -/
theorem mem_cutChars_fst (hc : c ∈ (cutChars mark cs).1) :
    c ≠ mark ∧ c ∈ cs := by
  rcases cutChars_cases mark cs with hmark | ⟨before, behind, rfl, hmark⟩
  · rw [cutChars_of_not_mem hmark] at hc
    exact ⟨fun h => hmark (h ▸ hc), hc⟩
  · rw [cutChars_append hmark] at hc
    exact ⟨fun h => hmark (h ▸ hc), List.mem_append_left _ hc⟩

/-- What stands behind a cut stood in the text. -/
theorem mem_of_cutChars_snd (hbehind : (cutChars mark cs).2 = some behind)
    (hc : c ∈ behind) : c ∈ cs := by
  rcases cutChars_cases mark cs with hmark | ⟨before, behind', rfl, hmark⟩
  · rw [cutChars_of_not_mem hmark] at hbehind
    cases hbehind
  · rw [cutChars_append hmark] at hbehind
    cases hbehind
    exact List.mem_append_right _ (List.mem_cons_of_mem _ hc)

/-- A text without the mark is left as it is. -/
theorem cut_of_not_mem (hmark : mark ∉ cs) :
    cut mark (String.ofList cs) = (String.ofList cs, none) := by
  simp [cut, cutChars_of_not_mem hmark]

/-- A text is cut at its first mark. -/
theorem cut_append (hmark : mark ∉ before) (behind : List Char) :
    cut mark (String.ofList (before ++ mark :: behind)) =
      (String.ofList before, some (String.ofList behind)) := by
  simp only [cut, String.toList_ofList, cutChars_append hmark, Option.map_some]

/-- The search finds every occurrence of the part. -/
theorem holdsChars_iff : holdsChars part cs = true ↔ part <:+: cs := by
  induction cs with
  | nil => simp [holdsChars]
  | cons c cs ih =>
      rw [holdsChars, Bool.or_eq_true, List.isPrefixOf_iff_prefix, ih,
        List.infix_cons_iff]

/-- A text holds a part if the part's characters occur in it one after the
other. -/
theorem holds_iff {part s : String} :
    holds part s = true ↔ part.toList <:+: s.toList :=
  holdsChars_iff

/-- A pattern without a character does not reach over it. -/
theorem infix_append_cons (hc : c ∉ part) :
    part <:+: before ++ c :: behind ↔ part <:+: before ∨ part <:+: behind := by
  constructor
  · intro h
    rcases List.infix_append_iff.mp h with
      h | h | ⟨l₁, l₂, rfl, hbefore, hprefix⟩
    · exact .inl h
    · rcases List.infix_cons_iff.mp h with hprefix | h
      · cases part with
        | nil => exact .inl (List.nil_infix)
        | cons p ps =>
            obtain rfl : p = c := (List.cons_prefix_cons.mp hprefix).1
            exact absurd List.mem_cons_self hc
      · exact .inr h
    · cases l₂ with
      | nil =>
          rw [List.append_nil]
          exact .inl hbefore.isInfix
      | cons p ps =>
          obtain rfl : p = c := (List.cons_prefix_cons.mp hprefix).1
          exact absurd (List.mem_append_right _ List.mem_cons_self) hc
  · rintro (h | h)
    · exact List.infix_append_of_infix_left h
    · exact List.infix_append_of_infix_right (List.infix_cons h)

/-- In a text of parts, each behind a separator, a pattern without the separator
is found in one of them. -/
theorem infix_separated {α : Type} (text : α → List Char) (first : List Char)
    (parts : List α) (hc : c ∉ part) :
    part <:+: first ++ parts.flatMap (fun a => c :: text a) ↔
      part <:+: first ∨ ∃ a ∈ parts, part <:+: text a := by
  induction parts generalizing first with
  | nil => simp
  | cons a parts ih =>
      rw [List.flatMap_cons, List.cons_append, infix_append_cons hc, ih]
      simp only [List.mem_cons, exists_eq_or_imp]

/-- No character of one list is in the other, if each of them is looked up. -/
theorem not_mem_of_all {marks : List Char}
    (hall : marks.all (fun c => !cs.contains c) = true) :
    ∀ c ∈ marks, c ∉ cs := by
  intro c hc hmem
  have hlooked := List.all_eq_true.mp hall c hc
  rw [List.contains_iff_mem.mpr hmem] at hlooked
  cases hlooked

/-- A pattern with a character that a text does not have is not found in it. -/
theorem not_infix_of_mem (hpart : c ∈ part) (hcs : c ∉ cs) :
    ¬ part <:+: cs := by
  intro h
  exact hcs (h.subset hpart)

/-- A pattern is not found in a shorter text. -/
theorem not_infix_of_length (hlength : cs.length < part.length) :
    ¬ part <:+: cs := by
  intro h
  exact Nat.not_le.mpr hlength h.length_le

section Chunks

variable {first chunk : List Char}

/-- What stands in a chunk stood in what was split. -/
theorem mem_of_mem_splitOn (hchunk : chunk ∈ cs.splitOn mark) (hc : c ∈ chunk) :
    c ∈ cs := by
  induction cs generalizing chunk with
  | nil =>
      rw [List.splitOn_nil, List.mem_singleton] at hchunk
      rw [hchunk] at hc
      exact hc
  | cons x xs ih =>
      rw [List.splitOn_cons_eq_if_modifyHead] at hchunk
      split at hchunk
      · rcases List.mem_cons.mp hchunk with rfl | h
        · cases hc
        · exact List.mem_cons_of_mem _ (ih h hc)
      · cases hsplit : xs.splitOn mark with
        | nil => exact absurd hsplit (List.splitOn_ne_nil _ _)
        | cons first rest =>
            rw [hsplit] at hchunk ih
            rcases List.mem_cons.mp hchunk with rfl | h
            · rcases List.mem_cons.mp hc with rfl | h
              · exact List.mem_cons_self
              · exact List.mem_cons_of_mem _ (ih List.mem_cons_self h)
            · exact List.mem_cons_of_mem _ (ih (List.mem_cons_of_mem _ h) hc)

/-- No chunk has the character at which it was split off. -/
theorem not_mem_of_mem_splitOn (hchunk : chunk ∈ cs.splitOn mark) :
    mark ∉ chunk := by
  induction cs generalizing chunk with
  | nil =>
      rw [List.splitOn_nil, List.mem_singleton] at hchunk
      rw [hchunk]
      exact List.not_mem_nil
  | cons x xs ih =>
      rw [List.splitOn_cons_eq_if_modifyHead] at hchunk
      cases hsplit : xs.splitOn mark with
      | nil => exact absurd hsplit (List.splitOn_ne_nil _ _)
      | cons first rest =>
          rw [hsplit] at hchunk ih
          split at hchunk
          · rcases List.mem_cons.mp hchunk with rfl | h
            · exact List.not_mem_nil
            · exact ih h
          · next hx =>
            rcases List.mem_cons.mp hchunk with rfl | h
            · intro hmem
              rcases List.mem_cons.mp hmem with rfl | hmem
              · exact hx (beq_self_eq_true _)
              · exact ih List.mem_cons_self hmem
            · exact ih (List.mem_cons_of_mem _ h)

/-- Parts that are each put behind a separator, which none of them has, are
split off again. -/
theorem splitOn_separated {α : Type} (text : α → List Char) (parts : List α)
    (hfirst : mark ∉ first) (hparts : ∀ a ∈ parts, mark ∉ text a) :
    (first ++ parts.flatMap fun a => mark :: text a).splitOn mark =
      first :: parts.map text := by
  induction parts generalizing first with
  | nil =>
      rw [List.flatMap_nil, List.append_nil, List.map_nil]
      exact List.splitOn_eq_singleton hfirst
  | cons a parts ih =>
      have hrest := ih (hparts a List.mem_cons_self) fun b hb =>
        hparts b (List.mem_cons_of_mem _ hb)
      rw [List.flatMap_cons, List.cons_append,
        List.splitOn_append_cons_self_of_not_mem hfirst, hrest, List.map_cons]

end Chunks

end DidVault.Text
