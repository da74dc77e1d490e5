import DidVault.Proofs.Address
import DidVault.Proofs.Did.Url.Reading
import DidVault.Proofs.Text.Cut

/-!
# The ids of methods as DID URLs

The id of a method is written as a DID URL whose method-specific identifier is
the hash of the key (`Identifier.methodUrl`).  The hash is Base64, which has a
slash among its symbols, and in a DID URL a slash begins the path.  So the id is
read back as it was meant exactly if there is no slash in the hash; otherwise
the hash is cut at its first slash, or refused where two slashes stand together
(`Identifier.parse_id_of_addMethod`).
-/

namespace DidVault

namespace DidUrl

variable {marks cs method id : List Char}

/-- A text without escapes is unbroken if it has none of the marks. -/
theorem unbroken_of_plain (hplain : '%' ∉ cs) (hfree : ∀ c ∈ marks, c ∉ cs) :
    Unbroken marks cs := by
  induction cs with
  | nil => exact trivial
  | cons c cs ih =>
      have hc : c ≠ '%' := fun h => hplain (h ▸ List.mem_cons_self)
      refine (unbroken_cons hc).mpr ⟨fun h => hfree c h List.mem_cons_self, ?_⟩
      exact ih (fun h => hplain (List.mem_cons_of_mem _ h))
        fun d hd h => hfree d hd (List.mem_cons_of_mem _ h)

/-- The lengths of two texts add up. -/
theorem byteLength_append (cs ds : List Char) :
    byteLength (cs ++ ds) = byteLength cs + byteLength ds := by
  induction cs with
  | nil => exact (Nat.zero_add _).symm
  | cons c cs ih =>
      show c.utf8Size + byteLength (cs ++ ds) = c.utf8Size + byteLength cs +
          byteLength ds
      rw [ih, Nat.add_assoc]

/-- A text of narrow characters has as many bytes as characters. -/
theorem byteLength_of_narrow (hnarrow : ∀ c ∈ cs, c.utf8Size = 1) :
    byteLength cs = cs.length := by
  induction cs with
  | nil => rfl
  | cons c cs ih =>
      have hrest := ih fun d hd => hnarrow d (List.mem_cons_of_mem _ hd)
      show c.utf8Size + byteLength cs = cs.length + 1
      rw [hnarrow c List.mem_cons_self, hrest, Nat.add_comm]

/-- Two slashes behind the identifier leave the first segment of the path
without a name. -/
theorem scanBody_of_doubleSlash (hnamed : method ≠ []) (hmethod : ':' ∉ method)
    (hgiven : id ≠ []) (hstart : id.head? ≠ some ':')
    (hid : Unbroken [';', '/', '?', '#'] id) (more : List Char) :
    scanBody (method ++ ':' :: (id ++ '/' :: '/' :: more)) =
      .error ⟨.emptyFirstSegment, '/' :: more⟩ := by
  have hcolon : Halts [':'] (':' :: (id ++ '/' :: '/' :: more)) :=
    halts_cons.mpr (by decide)
  have hslash : Halts [';', '/', '?', '#'] ('/' :: '/' :: more) :=
    halts_cons.mpr (by decide)
  have hscanMethod := scanMethod_iff.mpr ⟨rfl, by simpa using hmethod, hcolon⟩
  have hscanId := scanId_iff.mpr ⟨rfl, hgiven, hstart, hid, hslash⟩
  have hparams : scanParams ('/' :: '/' :: more) =
      .ok ([], '/' :: '/' :: more) := by
    rw [scanParams]
    simp
  rw [scanBody, hscanMethod]
  split
  · next h => cases h
  · next h => exact absurd (congrArg Prod.fst h) hnamed
  · next h =>
      cases h
      rw [hscanId]
      show (scanParams ('/' :: '/' :: more) >>= _) = _
      rw [hparams]
      rfl

/-- A text with two slashes behind the identifier is refused at the second
one. -/
theorem parse_of_doubleSlash (hnamed : method ≠ []) (hmethod : ':' ∉ method)
    (hgiven : id ≠ []) (hstart : id.head? ≠ some ':')
    (hid : Unbroken [';', '/', '?', '#'] id) (more : List Char) :
    parse (String.ofList
      ("did:".toList ++ method ++ ':' :: id ++ '/' :: '/' :: more)) =
        .error ⟨byteLength method + byteLength id + 6, .emptyFirstSegment⟩ := by
  have hchars : "did:".toList ++ method ++ ':' :: id ++ '/' :: '/' :: more =
      'd' :: 'i' :: 'd' :: ':' ::
        (method ++ ':' :: (id ++ '/' :: '/' :: more)) := by simp
  have hlength :
      byteLength ('d' :: 'i' :: 'd' :: ':' ::
        (method ++ ':' :: (id ++ '/' :: '/' ::
      more))) = byteLength method + byteLength id + 6 +
        byteLength ('/' :: more) := by
    show 1 + (1 +
        (1 + (1 + byteLength (method ++ ':' :: (id ++ '/' :: '/' :: more))))) =
          _
    rw [byteLength_append]
    show 1 + (1 +
        (1 +
          (1 + (byteLength method +
            (1 + byteLength (id ++ '/' :: '/' :: more)))))) = _
    rw [byteLength_append]
    show 1 + (1 +
        (1 +
          (1 + (byteLength method +
            (1 + (byteLength id + (1 + byteLength ('/' ::
      more)))))))) = _
    omega
  have hlong :
      minLength ≤ byteLength method + byteLength id + 6 +
        byteLength ('/' :: more) := by
    have hslash : byteLength ('/' :: more) = 1 + byteLength more := rfl
    rw [minLength]
    omega
  rw [parse, String.toList_ofList, hchars, scan, hlength,
    if_neg (Nat.not_lt.mpr hlong)]
  simp only [scanBody_of_doubleSlash hnamed hmethod hgiven hstart hid more]
  rw [Nat.add_sub_cancel]

end DidUrl

namespace Identifier

variable {i i' : Identifier} {keyType : KeyType} {index : Option Nat}
variable {pem query fragment id : String} {front behind : List Char}

/-- The DID URL that the id of a method is written as. -/
def methodUrl (pem query fragment : String) : DidUrl where
  method := Names.keyMethod
  id := Address.keyHash (Utf8.encode pem)
  params := []
  path := []
  query := if query.isEmpty then none else some query
  fragment := some fragment

/-- The DID URL that is read instead if the hash is cut at a slash. -/
def cutUrl (pem query fragment : String) (front behind : List Char) : DidUrl :=
  { methodUrl pem query fragment with
    id := String.ofList front
    path := (behind.splitOn '/').map String.ofList }

/-- A method's id is the DID URL of its parts. -/
theorem render_methodUrl (hfragment : fragment.toList.head? ≠ some '#') :
    (methodUrl pem query fragment).render = methodId pem query fragment := by
  have hplain : Text.withoutLeading '#' fragment = fragment := by
    rw [Text.withoutLeading]
    cases hchars : fragment.toList with
    | nil => simpa using hchars.symm
    | cons c cs =>
        rw [hchars] at hfragment
        have hc : (c == '#') = false := by simpa using hfragment
        rw [List.dropWhile_cons_of_neg (by simp [hc]), ← hchars,
          String.ofList_toList]
  rw [methodId, hplain]
  by_cases hquery : query.isEmpty <;>
    simp [methodUrl, DidUrl.render, DidUrl.renderSuffix, Names.keyStart,
      Names.reference, hquery, String.append_assoc]

/-- The hash up to a slash is a method-specific identifier, and what is behind
the slash may be a path. -/
theorem wellFormed_methodUrl {path : List String} (fragment : String)
    (hquery : '#' ∉ query.toList)
    (hhash : (Address.keyHash (Utf8.encode pem)).toList = front ++ behind)
    (hgiven : front ≠ []) (hslash : '/' ∉ front)
    (hpath : DidUrl.SoundPath path) :
    { methodUrl pem query fragment with id := String.ofList front,
                                        path }.WellFormed where
  methodNamed := show Names.keyMethod ≠ "" by decide
  method := show ':' ∉ Names.keyMethod.toList by decide
  idGiven h := hgiven (by simpa using h)
  idStart := by
    obtain ⟨c, more, rfl⟩ := List.exists_cons_of_ne_nil hgiven
    have hhead := Address.head?_keyHash (Utf8.encode pem)
    rw [hhash] at hhead
    obtain rfl := Option.some.inj hhead
    rw [String.toList_ofList]
    simp
  id := by
    have hnone : ∀ c ∈ [':', ';', '?', '&', '#', '%'], c ∉ front := by
      intro c hc hmem
      refine Address.not_mem_keyHash (Utf8.encode pem) c hc ?_
      rw [hhash]
      exact List.mem_append_left _ hmem
    rw [String.toList_ofList]
    refine DidUrl.unbroken_of_plain (hnone '%' (by decide)) ?_
    simp only [List.forall_mem_cons, List.not_mem_nil]
    exact ⟨hnone ';' (by decide), hslash, hnone '?' (by decide),
      hnone '#' (by decide), nofun⟩
  params := nofun
  path := hpath
  query q hq := by
    by_cases hempty : query.isEmpty
    · simp [methodUrl, hempty] at hq
    · obtain rfl : query = q := by simpa [methodUrl, hempty] using hq
      exact hquery

/-- What stands before a `/` in a hash is not empty, since the hash begins with
an `A`. -/
theorem ne_nil_of_hash
    (hhash : (Address.keyHash (Utf8.encode pem)).toList = front ++ behind)
    (hbehind : behind.head? ≠ some 'A') : front ≠ [] := by
  rintro rfl
  rw [List.nil_append] at hhash
  exact hbehind (hhash ▸ Address.head?_keyHash (Utf8.encode pem))

/-- A hash without `/` makes an id that is read as the parts that were meant. -/
theorem parse_methodId (hquery : '#' ∉ query.toList)
    (hfragment : fragment.toList.head? ≠ some '#')
    (hslash : '/' ∉ (Address.keyHash (Utf8.encode pem)).toList) :
    DidUrl.parse (methodId pem query fragment) =
      .ok (methodUrl pem query fragment) := by
  have hhash :=
    (List.append_nil (Address.keyHash (Utf8.encode pem)).toList).symm
  have hurl :=
    wellFormed_methodUrl fragment hquery hhash
      (ne_nil_of_hash hhash nofun) hslash DidUrl.soundPath_nil
  rw [String.ofList_toList] at hurl
  exact DidUrl.parse_iff.mpr ⟨render_methodUrl hfragment, hurl⟩

/-- Cut at a slash, the hash is written as an identifier and a path. -/
theorem render_cutUrl (hfragment : fragment.toList.head? ≠ some '#')
    (hhash : (Address.keyHash (Utf8.encode pem)).toList =
      front ++ '/' :: behind) :
    (cutUrl pem query fragment front behind).render =
      methodId pem query fragment := by
  rw [← render_methodUrl hfragment, ← String.toList_inj, DidUrl.toList_render,
    DidUrl.toList_render]
  simp only [cutUrl, DidUrl.bodyChars, DidUrl.suffixChars,
    DidUrl.pathChars_splitOn, String.toList_ofList]
  simp [methodUrl, hhash, DidUrl.paramChars, DidUrl.pathChars]

/-- A slash in the hash begins a path, whose first segment is not empty if there
is something but another slash behind it. -/
theorem parse_methodId_of_slash {c : Char} {rest : List Char}
    (hquery : '#' ∉ query.toList) (hfragment : fragment.toList.head? ≠ some '#')
    (hhash : (Address.keyHash (Utf8.encode pem)).toList =
      front ++ '/' :: c :: rest)
    (hslash : '/' ∉ front) (hc : c ≠ '/') :
    DidUrl.parse (methodId pem query fragment) =
      .ok (cutUrl pem query fragment front (c :: rest)) := by
  have hfree : ∀ d ∈ ['?', '#'], d ∉ c :: rest := by
    intro d hd hmem
    have hmarks : ∀ d ∈ ['?', '#'],
        d ∈ [':', ';', '?', '&', '#', '%'] := by simp
    refine Address.not_mem_keyHash (Utf8.encode pem) d (hmarks d hd) ?_
    rw [hhash]
    exact List.mem_append_right _ (List.mem_cons_of_mem _ hmem)
  have hurl :=
    wellFormed_methodUrl fragment hquery hhash
      (ne_nil_of_hash hhash (by simp)) hslash
        (DidUrl.soundPath_splitOn hc hfree)
  exact DidUrl.parse_iff.mpr ⟨render_cutUrl hfragment hhash, hurl⟩

/-- Two slashes together in the hash are refused at the second one. -/
theorem parse_methodId_of_doubleSlash {rest : List Char}
    (hquery : '#' ∉ query.toList) (hfragment : fragment.toList.head? ≠ some '#')
    (hhash : (Address.keyHash (Utf8.encode pem)).toList =
      front ++ '/' :: '/' :: rest)
    (hslash : '/' ∉ front) :
    DidUrl.parse (methodId pem query fragment) =
      .error ⟨Names.keyStart.length + front.length + 1,
        .emptyFirstSegment⟩ := by
  have hgiven := ne_nil_of_hash hhash (by simp)
  have hurl :=
    wellFormed_methodUrl fragment hquery hhash hgiven hslash
      DidUrl.soundPath_nil
  have htext : methodId pem query fragment =
      String.ofList
        ("did:".toList ++ Names.keyMethod.toList ++ ':' :: front ++
          '/' :: '/' ::
        (rest ++ DidUrl.suffixChars (methodUrl pem query fragment))) := by
    rw [← render_methodUrl hfragment, ← String.toList_inj, DidUrl.toList_render,
      String.toList_ofList, DidUrl.bodyChars]
    simp [methodUrl, hhash]
  have hwidth : DidUrl.byteLength front = front.length := by
    refine DidUrl.byteLength_of_narrow fun c hc => ?_
    have hmem : c ∈ (Address.keyHash (Utf8.encode pem)).toList := by
      rw [hhash]
      exact List.mem_append_left _ hc
    exact Address.utf8Size_of_mem_keyHash hmem
  have hplace : DidUrl.byteLength Names.keyMethod.toList + front.length + 6 =
      Names.keyStart.length + front.length + 1 := by
    have hstart :
        Names.keyStart.length = DidUrl.byteLength Names.keyMethod.toList +
          5 := by decide
    omega
  rw [htext, DidUrl.parse_of_doubleSlash (by decide) (by decide) hgiven
    (by simpa using hurl.idStart) (by simpa using hurl.id), hwidth, hplace]

/-- The id that publishing a key returns is read as the DID URL that it is
written as exactly if there is no slash in the hash of the key.  A slash in the
hash begins the path; if another one is right behind it, the id is refused. -/
theorem parse_id_of_addMethod
    (hadd : i.addMethod keyType pem query fragment index = .ok (i', id))
    (hquery : '#' ∉ query.toList)
    (hfragment : fragment.toList.head? ≠ some '#') :
    (DidUrl.parse id = .ok (methodUrl pem query fragment) ↔
        '/' ∉ (Address.keyHash (Utf8.encode pem)).toList) ∧
      ∀ front behind,
        (Address.keyHash (Utf8.encode pem)).toList = front ++ '/' :: behind →
          '/' ∉ front →
            DidUrl.parse id =
              if behind.head? = some '/' then
                .error ⟨Names.keyStart.length + front.length + 1,
                  .emptyFirstSegment⟩
              else .ok (cutUrl pem query fragment front behind) := by
  obtain rfl : methodId pem query fragment = id := by
    simp only [addMethod] at hadd
    split at hadd
    · cases hadd
    · exact congrArg Prod.snd (Except.ok.inj hadd)
  have hcut : ∀ front behind,
      (Address.keyHash (Utf8.encode pem)).toList = front ++ '/' :: behind →
      '/' ∉ front →
      DidUrl.parse (methodId pem query fragment) =
        if behind.head? = some '/' then
          .error ⟨Names.keyStart.length + front.length + 1, .emptyFirstSegment⟩
        else .ok (cutUrl pem query fragment front behind) := by
    intro front behind hhash hslash
    cases behind with
    | nil =>
        -- the hash does not end with a slash, since its last group is filled up
        have hlast := Address.getLast?_keyHash (Utf8.encode pem)
        rw [hhash, List.getLast?_concat] at hlast
        cases hlast
    | cons c rest =>
        by_cases hc : c = '/'
        · subst hc
          rw [if_pos List.head?_cons]
          exact parse_methodId_of_doubleSlash hquery hfragment hhash hslash
        · have hhead : ¬ (c :: rest).head? = some '/' :=
            fun h => hc (Option.some.inj h)
          rw [if_neg hhead]
          exact parse_methodId_of_slash hquery hfragment hhash hslash hc
  refine ⟨⟨fun hparse => ?_, parse_methodId hquery hfragment⟩, hcut⟩
  rcases Text.cutChars_cases '/' (Address.keyHash (Utf8.encode pem)).toList with
    hslash | ⟨front, behind, hhash, hslash⟩
  · exact hslash
  · rw [hcut front behind hhash hslash] at hparse
    split at hparse
    · cases hparse
    · -- the path that is read is not empty
      have hpath := congrArg DidUrl.path (Except.ok.inj hparse)
      exact absurd (List.map_eq_nil_iff.mp hpath) (List.splitOn_ne_nil _ _)

/-- The hash of the first key has no slash, that of the second one has one, and
that of the third one has two together. -/
theorem parse_id_of_three_keys :
    (∃ i id, new.addMethod .ed25519 "a" "q" "key-0" none = .ok (i, id) ∧
        DidUrl.parse id =
          .ok ⟨"aospacekey", "AACACEvy+6AkddL8Gok=", [], [], some "q",
            some "key-0"⟩) ∧
      (∃ i id, new.addMethod .ed25519 "abc" "" "key-0" none = .ok (i, id) ∧
        DidUrl.parse id =
          .ok ⟨"aospacekey", "AAA6mF2nT+IlsnxW", [], ["cQ="], none,
            some "key-0"⟩) ∧
      ∃ i id, new.addMethod .ed25519 "dh" "q" "" none = .ok (i, id) ∧
        DidUrl.parse id = .error ⟨25, .emptyFirstSegment⟩ := by
  have hplain : Address.keyHash (Utf8.encode "a") = "AACACEvy+6AkddL8Gok=" := by
    decide +kernel
  have hslash : (Address.keyHash (Utf8.encode "abc")).toList =
      "AAA6mF2nT+IlsnxW".toList ++ '/' :: "cQ=".toList := by decide +kernel
  have hdouble : (Address.keyHash (Utf8.encode "dh")).toList =
      "AADsDVia3".toList ++ '/' :: "/rwnMwsiQ=".toList := by decide +kernel
  refine ⟨⟨_, _, rfl, ?_⟩, ⟨_, _, rfl, ?_⟩, ⟨_, _, rfl, ?_⟩⟩
  · rw [(@parse_id_of_addMethod new _ .ed25519 none "a" "q" "key-0" _ rfl
      (by decide) (by decide)).1.mpr (by rw [hplain]; decide),
      methodUrl, hplain]
    rfl
  · rw [(@parse_id_of_addMethod new _ .ed25519 none "abc" "" "key-0" _ rfl
      (by decide) (by decide)).2 _ _ hslash (by decide), if_neg (by decide),
      cutUrl, methodUrl]
    decide
  · rw [(@parse_id_of_addMethod new _ .ed25519 none "dh" "q" "" _ rfl
      (by decide) (by decide)).2 _ _ hdouble (by decide), if_pos (by decide)]
    decide

end Identifier

end DidVault
