import DidVault.Proofs.Did.Url.Reading
import DidVault.Proofs.Records.Keys

/-!
# Normal DIDs and the parts of DID URLs

A record of a DID is kept under the text of the DID up to its first question
mark or hash (`normalizeDid`).  The parts of a DID URL are read in another way:
a `%` in the identifier or in a parameter hides the mark behind it, and the name
of the method ends at a colon and nowhere else.

The two readings agree exactly on the DID URLs without such hidden marks
(`DidUrl.Plain`).  The normal form of any other one is cut off within its
identifier, its parameters or its method, and then it shares its records with
DID URLs of other parts (`DidUrl.normal_iff_plain`).
-/

namespace DidVault

namespace RecordKey

/-- The documents of two DIDs are kept in one record if the DIDs have the same
normal form. -/
theorem document_inj {did other : String} :
    document did = document other ↔ normalizeDid did = normalizeDid other :=
  (RecordKind.key_inj (k := .document) (l := .document)).trans
    (and_iff_right rfl)

/-- The accounts of two DIDs are kept in one record if the DIDs have the same
normal form. -/
theorem accountOf_inj {did other : String} :
    accountOf did = accountOf other ↔ normalizeDid did = normalizeDid other :=
  (RecordKind.key_inj (k := .accountOf) (l := .accountOf)).trans
    (and_iff_right rfl)

end RecordKey

namespace DidUrl

/-- The DID URL without its query and fragment. -/
def bare (url : DidUrl) : DidUrl := { url with query := none, fragment := none }

/-- No question mark or hash is hidden in the method, the identifier or a
parameter. -/
structure Plain (url : DidUrl) : Prop where
  method : ∀ c ∈ url.method.toList, c ∉ ['?', '#']
  id : ∀ c ∈ url.id.toList, c ∉ ['?', '#']
  param : ∀ param ∈ url.params, ∀ c ∈ param.render.toList, c ∉ ['?', '#']

variable {url theirs : DidUrl} {text other : String} {cs head tail : List Char}

/-- The query and the fragment stand behind all other parts. -/
theorem toList_render_bare (url : DidUrl) :
    url.render.toList =
      url.bare.render.toList ++
        (queryChars url.query ++ fragmentChars url.fragment) := by
  have hbare : suffixChars url = suffixChars url.bare
      ++ (queryChars url.query ++ fragmentChars url.fragment) := by
    simp [suffixChars, bare, queryChars, fragmentChars]
  rw [toList_render, toList_render, bodyChars, bodyChars, hbare]
  simp [bare]

/-- What follows the path begins with one of its delimiters. -/
theorem halts_behind (query fragment : Option String) :
    Halts ['?', '#'] (queryChars query ++ fragmentChars fragment) :=
  halts_queryChars (halts_fragmentChars fragment)

/-- What is cut off at the first mark is never kept. -/
theorem takeWhile_append_of_halts (htail : Halts ['?', '#'] tail) :
    (head ++ tail).takeWhile keptInRecords = head.takeWhile keptInRecords := by
  have hcut : tail.takeWhile keptInRecords = [] := by
    cases tail with
    | nil => rfl
    | cons c rest =>
        have hc : ¬ keptInRecords c = true := fun h =>
          keptInRecords_iff.mp h (halts_cons.mp htail)
        exact List.takeWhile_cons_of_neg hc
  rw [List.takeWhile_append, hcut, List.append_nil]
  split
  · next hall =>
      exact (List.IsPrefix.eq_of_length (List.takeWhile_prefix _) hall).symm
  · rfl

/-- Text behind a mark does not matter. -/
theorem takeWhile_append_of_cut (hcut : head.takeWhile keptInRecords ≠ head) :
    (head ++ tail).takeWhile keptInRecords = head.takeWhile keptInRecords := by
  rw [List.takeWhile_append, if_neg]
  intro hall
  exact hcut (List.IsPrefix.eq_of_length (List.takeWhile_prefix _) hall)

/-- Normalizing removes at least the query and the fragment. -/
theorem normalizeDid_render (url : DidUrl) :
    normalizeDid url.render = normalizeDid url.bare.render := by
  rw [← String.toList_inj, toList_normalizeDid, toList_normalizeDid,
    toList_render_bare, takeWhile_append_of_halts (halts_behind _ _)]

/-- In a well-formed DID URL marks may be hidden in three parts only. -/
theorem plain_iff (hurl : url.WellFormed) :
    url.Plain ↔ ∀ c ∈ url.bare.render.toList, c ∉ ['?', '#'] := by
  have hchars :
      url.bare.render.toList =
        ['d', 'i', 'd', ':'] ++
          (url.method.toList ++
            ([':'] ++ (url.id.toList ++
              (paramChars url.params ++ pathChars url.path)))) := by
    rw [toList_render]
    simp [bodyChars, suffixChars, bare, queryChars, fragmentChars]
  have hpath : ∀ c ∈ pathChars url.path, c ∉ ['?', '#'] := by
    intro c hc hmark
    obtain ⟨segment, hsegment, h⟩ := List.mem_flatMap.mp hc
    rcases List.mem_cons.mp h with rfl | h
    · exact absurd hmark (by decide)
    · exact hurl.path.segment segment hsegment c
        (List.mem_cons_of_mem _ hmark) h
  rw [hchars]
  simp only [List.forall_mem_append]
  constructor
  · intro hplain
    refine ⟨by simp, hplain.method, by simp, hplain.id, ?_, hpath⟩
    intro c hc
    obtain ⟨param, hparam, h⟩ := List.mem_flatMap.mp hc
    exact hplain.param param hparam c h
  · rintro ⟨-, hmethod, -, hid, hparams, -⟩
    exact ⟨hmethod, hid, fun param hparam c hc =>
      hparams c (List.mem_flatMap.mpr ⟨param, hparam, hc⟩)⟩

/-- The normal form of a DID URL holds all its other parts if they hide no
mark. -/
theorem normalizeDid_bare_iff (hurl : url.WellFormed) :
    normalizeDid url.bare.render = url.bare.render ↔ url.Plain := by
  rw [← String.toList_inj, toList_normalizeDid, List.takeWhile_eq_self_iff,
    plain_iff hurl]
  simp only [keptInRecords_iff]

/-- What goes on behind a plain DID URL is a query or a fragment. -/
theorem exists_behind (hcs : Halts ['?', '#'] cs) :
    ∃ query fragment, cs = queryChars query ++ fragmentChars fragment ∧
      ∀ q ∈ query, '#' ∉ q.toList := by
  rcases hquery : scanQuery cs with ⟨query, rest⟩
  obtain ⟨rfl, hfree, hrest⟩ := (scanQuery_iff hcs).mp hquery
  exact ⟨query, scanFragment rest, by
    rw [← (scanFragment_iff hrest).mp rfl], hfree⟩

/-- A DID URL whose normal form is a plain one differs from that in its query
and fragment only. -/
theorem bare_eq_of_normalizeDid_eq (hurl : url.WellFormed) (hplain : url.Plain)
    (hparse : parse other = .ok theirs)
    (hsame : normalizeDid other = normalizeDid url.render) :
    theirs.bare = url.bare := by
  rw [normalizeDid_render, (normalizeDid_bare_iff hurl).mpr hplain] at hsame
  have hchars : other.toList =
      url.bare.render.toList ++ other.toList.dropWhile keptInRecords := by
    rw [← hsame, toList_normalizeDid, List.takeWhile_append_dropWhile]
  have hhalts : Halts ['?', '#'] (other.toList.dropWhile keptInRecords) := by
    intro c hc
    have hcut := List.head?_dropWhile_not keptInRecords other.toList
    rw [Option.mem_def.mp hc] at hcut
    by_contra h
    exact Bool.false_ne_true (hcut.symm.trans (keptInRecords_iff.mpr h))
  obtain ⟨query, fragment, hbehind, hfree⟩ := exists_behind hhalts
  have hwell : { url with query, fragment }.WellFormed :=
    ⟨hurl.methodNamed, hurl.method, hurl.idGiven, hurl.idStart, hurl.id,
      hurl.params, hurl.path, hfree⟩
  have hrender : { url with query, fragment }.render = other := by
    rw [← String.toList_inj, toList_render_bare, hchars, hbehind]
    rfl
  have hread := hparse.symm.trans (parse_iff.mpr ⟨hrender, hwell⟩)
  rw [Except.ok.inj hread]
  rfl

/-- The DID URL with one more segment at the end of its path, and nothing behind
it. -/
def extended (url : DidUrl) : DidUrl :=
  { url.bare with path := url.path ++ ["x"] }

/-- The longer path is well formed, too. -/
theorem wellFormed_extended (hurl : url.WellFormed) :
    url.extended.WellFormed where
  methodNamed := hurl.methodNamed
  method := hurl.method
  idGiven := hurl.idGiven
  idStart := hurl.idStart
  id := hurl.id
  params := hurl.params
  path := by
    constructor
    · intro segment hsegment
      rcases List.mem_append.mp hsegment with h | h
      · exact hurl.path.segment segment h
      · rw [List.mem_singleton.mp h]
        simp
    · intro segment hsegment
      cases hpath : url.path with
      | nil =>
          rw [extended, hpath] at hsegment
          obtain rfl := Option.some.inj hsegment
          decide
      | cons first rest =>
          rw [extended, hpath] at hsegment
          refine hurl.path.first segment ?_
          rw [hpath]
          exact hsegment
  query := nofun

/-- It is written as the bare DID URL and one more segment. -/
theorem toList_render_extended (url : DidUrl) :
    url.extended.render.toList = url.bare.render.toList ++ ['/', 'x'] := by
  rw [toList_render, toList_render]
  simp [bodyChars, suffixChars, extended, bare, pathChars, queryChars,
    fragmentChars]

/-- Behind a hidden mark further segments are cut off. -/
theorem normalizeDid_extended (hurl : url.WellFormed) (hhidden : ¬ url.Plain) :
    normalizeDid url.extended.render = normalizeDid url.render := by
  rw [normalizeDid_render url, ← String.toList_inj, toList_normalizeDid,
    toList_normalizeDid, toList_render_extended, takeWhile_append_of_cut]
  intro hall
  refine hhidden ((normalizeDid_bare_iff hurl).mp ?_)
  rw [← String.toList_inj, toList_normalizeDid, hall]

/-- It differs from the bare DID URL. -/
theorem bare_extended_ne (url : DidUrl) : url.extended.bare ≠ url.bare := by
  intro h
  have hlength := congrArg (fun url => url.path.length) h
  simp [extended, bare] at hlength

/-- A DID URL is the only one of its normal form, up to queries and fragments,
exactly if it hides no mark. -/
theorem plain_iff_normalizeDid_eq_iff (hparse : parse text = .ok url) :
    url.Plain ↔ ∀ other theirs, parse other = .ok theirs →
      (normalizeDid other = normalizeDid text ↔ theirs.bare = url.bare) := by
  obtain ⟨rfl, hurl⟩ := parse_iff.mp hparse
  constructor
  · intro hplain other theirs htheirs
    refine ⟨bare_eq_of_normalizeDid_eq hurl hplain htheirs, fun hbare => ?_⟩
    obtain ⟨rfl, -⟩ := parse_iff.mp htheirs
    rw [normalizeDid_render, normalizeDid_render url, hbare]
  · intro hall
    by_contra hhidden
    have hextended := parse_iff.mpr ⟨rfl, wellFormed_extended hurl⟩
    refine bare_extended_ne url ((hall _ _ hextended).mp ?_)
    exact normalizeDid_extended hurl hhidden

/-- The normal form of a DID URL is its text without query and fragment exactly
if no question mark or hash is hidden in its method, its identifier or a
parameter.  Exactly then the records of its document and of its account are
those of the DID URLs that differ from it in the query and the fragment only;
otherwise a DID URL of other parts has the same records. -/
theorem normal_iff_plain (hparse : parse text = .ok url) :
    (normalizeDid text = url.bare.render ↔ url.Plain) ∧
      (url.Plain ↔ ∀ other theirs, parse other = .ok theirs →
        (RecordKey.document other = RecordKey.document text ↔
          theirs.bare = url.bare)) ∧
      (url.Plain ↔ ∀ other theirs, parse other = .ok theirs →
        (RecordKey.accountOf other = RecordKey.accountOf text ↔
          theirs.bare = url.bare)) := by
  refine ⟨?_, ?_, ?_⟩
  · obtain ⟨rfl, hurl⟩ := parse_iff.mp hparse
    rw [normalizeDid_render, normalizeDid_bare_iff hurl]
  · simp only [RecordKey.document_inj]
    exact plain_iff_normalizeDid_eq_iff hparse
  · simp only [RecordKey.accountOf_inj]
    exact plain_iff_normalizeDid_eq_iff hparse

/-- A question mark that is hidden in the identifier cuts the identifier off,
and DID URLs of other parts share its records; in front of a query nothing is
lost. -/
theorem normal_of_query_not_of_escape :
    (∃ url, parse "did:a:b%?c" = .ok url ∧
      normalizeDid "did:a:b%?c" ≠ url.bare.render ∧
        ∃ other theirs, parse other = .ok theirs ∧ theirs.bare ≠ url.bare ∧
          RecordKey.document other = RecordKey.document "did:a:b%?c") ∧
      ∃ url, parse "did:a:b?c" = .ok url ∧
      normalizeDid "did:a:b?c" = url.bare.render ∧
        RecordKey.accountOf "did:a:b#d" = RecordKey.accountOf "did:a:b?c" := by
  have hescape :
      parse "did:a:b%?c" = .ok ⟨"a", "b%?c", [], [], none, none⟩ := by
    decide +kernel
  have hother : parse "did:a:b%?d" = .ok ⟨"a", "b%?d", [], [], none, none⟩ := by
    decide +kernel
  have hquery : parse "did:a:b?c" = .ok ⟨"a", "b", [], [], some "c", none⟩ := by
    decide +kernel
  have hfragment :
      parse "did:a:b#d" = .ok ⟨"a", "b", [], [], none, some "d"⟩ := by
    decide +kernel
  have hhidden : ¬ Plain ⟨"a", "b%?c", [], [], none, none⟩ :=
    fun h => h.id '?' (by decide) (by decide)
  have hplain : Plain ⟨"a", "b", [], [], some "c", none⟩ :=
    ⟨by simp, by simp, nofun⟩
  obtain ⟨hnormal, -, -⟩ := normal_iff_plain hescape
  obtain ⟨hnormal', -, haccount⟩ := normal_iff_plain hquery
  refine ⟨⟨_, hescape, fun h => hhidden (hnormal.mp h), _, _, hother, by
    decide, ?_⟩,
      _, hquery, hnormal'.mpr hplain,
      (haccount.mp hplain _ _ hfragment).mpr rfl⟩
  rw [RecordKey.document_inj]
  decide +kernel

end DidUrl

end DidVault
