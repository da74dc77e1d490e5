import DidVault.Issuing
import DidVault.Proofs.Address
import DidVault.Proofs.Text.Cut

/-!
# Reading the ids of issued methods

The query of an issued method says when it was issued and as what, and may have
further parameters that were handed in (`Issuing.queryWith`).  Since the time
and the hash of the key have none of the characters that divide an id, and
parameters that come from an id have no hash, the id of the method is read as it
was meant: its fragment and its credential are those of its kind
(`fragment?_issuedId`, `credential?_issuedId`).

Only when the id is searched for a text do further parameters get in the way:
the text that says a password key of the device is found in the id of such a
key, and in any other id exactly if a further parameter spells it
(`holds_issuedId`).
-/

namespace DidVault

namespace Timestamp

variable {c : Char}

/-- A padded number consists of digits. -/
theorem mem_padded {width n : Nat} (hc : c ∈ (padded width n).toList) :
    c.isDigit = true := by
  rw [padded, String.toList_ofList] at hc
  rcases List.mem_append.mp hc with h | h
  · rw [List.eq_of_mem_replicate h]
    rfl
  · exact Nat.isDigit_of_mem_toDigits (by omega) (by omega) h

/-- A year consists of digits and perhaps a sign. -/
theorem mem_yearText {year : Int} (hc : c ∈ (yearText year).toList) :
    c.isDigit = true ∨ c ∈ ['-', '+'] := by
  unfold yearText at hc
  split at hc
  · exact .inl (mem_padded hc)
  · rw [String.toList_append] at hc
    rcases List.mem_append.mp hc with h | h
    · split at h
      · exact .inr (by simpa using .inl (List.mem_singleton.mp h))
      · exact .inr (by simpa using .inr (List.mem_singleton.mp h))
    · exact .inl (mem_padded h)

/-- A time is written with digits and five other characters. -/
theorem mem_render {t : Timestamp} (hc : c ∈ t.render.toList) :
    c.isDigit = true ∨ c ∈ ['-', '+', 'T', ':', 'Z'] := by
  simp only [render, String.toList_append, List.mem_append] at hc
  have hdigit : ∀ {width n : Nat}, c ∈ (padded width n).toList →
      c.isDigit = true ∨ c ∈ ['-', '+', 'T', ':', 'Z'] :=
        fun h => .inl (mem_padded h)
  have hmark : ∀ mark ∈ ['-', '+', 'T', ':', 'Z'],
      c ∈ (String.singleton mark).toList →
      c.isDigit = true ∨ c ∈ ['-', '+', 'T', ':', 'Z'] := by
    intro mark hmark h
    obtain rfl : c = mark := by simpa using h
    exact .inr hmark
  rcases hc with
    ((((((((((h | h) | h) | h) | h) | h) | h) | h) | h) | h) | h) | h
  · rcases mem_yearText h with h | h
    · exact .inl h
    · exact .inr (List.mem_append_left ['T', ':', 'Z'] h)
  · exact hmark '-' (by decide) h
  · exact hdigit h
  · exact hmark '-' (by decide) h
  · exact hdigit h
  · exact hmark 'T' (by decide) h
  · exact hdigit h
  · exact hmark ':' (by decide) h
  · exact hdigit h
  · exact hmark ':' (by decide) h
  · exact hdigit h
  · exact hmark 'Z' (by decide) h

/-- No letter of a query parameter's name and no character that divides an id is
in a time. -/
theorem not_mem_render (t : Timestamp) :
    ∀ c ∈ ['y', '?', '&', '#'], c ∉ t.render.toList := by
  intro c hc hmem
  rcases mem_render hmem with h | h
  · have hall : ['y', '?', '&', '#'].all (fun c => !c.isDigit) = true := by
      decide
    have hnone := List.all_eq_true.mp hall c hc
    rw [h] at hnone
    cases hnone
  · have hnone : ∀ c ∈ ['y', '?', '&', '#'], c ∉ ['-', '+', 'T', ':', 'Z'] :=
      Text.not_mem_of_all (by decide)
    exact hnone c hc h

end Timestamp

namespace KeyId

variable {c : Char} {cs : List Char}

/-- What stands in a parameter stood in what it was read from. -/
theorem mem_of_mem_pair (hc : c ∈ (pair cs).1.toList ∨ c ∈ (pair cs).2.toList) :
    c ∈ cs := by
  rw [pair, String.toList_ofList, String.toList_ofList] at hc
  rcases hc with h | h
  · exact (Text.mem_cutChars_fst h).2
  · cases hbehind : (Text.cutChars '=' cs).2 with
    | none =>
        rw [hbehind] at h
        cases h
    | some behind =>
        rw [hbehind] at h
        exact Text.mem_of_cutChars_snd hbehind h

/-- A parameter of an id is what one chunk of its query says. -/
theorem mem_queryParams {id : String} {parameter : String × String}
    (hmem : parameter ∈ queryParams id) :
    ∃ chunk, parameter = pair chunk ∧ '#' ∉ chunk ∧ '&' ∉ chunk := by
  unfold queryParams at hmem
  cases hquery : query? id with
  | none =>
      rw [hquery] at hmem
      cases hmem
  | some query =>
      rw [hquery] at hmem
      obtain ⟨chunk, hchunk, rfl⟩ := List.mem_map.mp hmem
      have hsplit := (List.mem_filter.mp hchunk).1
      refine ⟨chunk, rfl, fun hhash => ?_, Text.not_mem_of_mem_splitOn hsplit⟩
      -- The query ends at the first hash.
      have hin := Text.mem_of_mem_splitOn hsplit hhash
      simp only [query?, Text.cut, String.toList_ofList, Option.map_eq_some_iff]
        at hquery
      obtain ⟨behind, hbehind, rfl⟩ := hquery
      rw [String.toList_ofList] at hin
      exact (Text.mem_cutChars_fst (Text.mem_of_cutChars_snd hbehind hin)).1 rfl

/-- Parameters that come from an id have no hash. -/
theorem hash_not_mem {id : String} {parameter : String × String}
    (hmem : parameter ∈ queryParams id) :
    '#' ∉ parameter.1.toList ∧ '#' ∉ parameter.2.toList := by
  obtain ⟨chunk, rfl, hhash, -⟩ := mem_queryParams hmem
  exact ⟨fun h => hhash (mem_of_mem_pair (.inl h)), fun h =>
    hhash (mem_of_mem_pair (.inr h))⟩

end KeyId

namespace Issuing

variable {now : Timestamp} {kind : Credential} {pem : String}
  {others : List (String × String)}

/-- A further parameter as a query has it. -/
def written (parameter : String × String) : String :=
  parameter.1 ++ (if parameter.2.isEmpty then "" else "=" ++ parameter.2)

/-- The query of a method that is issued with further parameters. -/
def queryWith (now : Timestamp) (kind : Credential)
    (others : List (String × String)) : String :=
  baseQuery now kind ++
    String.join (others.map fun parameter => "&" ++ written parameter)

/-- The id of a method that is issued with further parameters. -/
def issuedId (now : Timestamp) (kind : Credential) (pem : String)
    (others : List (String × String)) : String :=
  Identifier.methodId pem (queryWith now kind others) kind.fragment

/-- The parameters of a key that was handed in which go into the query of its
method. -/
def forwarded (key : BinderKey) : List (String × String) :=
  (KeyId.queryParams key.id).filter fun parameter =>
    parameter.1 != Names.versionTime && parameter.1 != Names.credentialType

/-- The query of a credential has no further parameters. -/
theorem baseQuery_eq (now : Timestamp) (kind : Credential) :
    baseQuery now kind = queryWith now kind [] := by
  rw [queryWith, List.map_nil, String.join_nil, String.append_empty]

/-- The query of a key that was handed in has the parameters of its id. -/
theorem forwardedQuery_eq (now : Timestamp) (kind : Credential)
    (key : BinderKey) :
    forwardedQuery now kind key = queryWith now kind (forwarded key) := by
  have hparameter : ∀ p : String × String,
      parameter p.1 p.2 = "&" ++ written p := by
    intro p
    rw [parameter, written, String.append_assoc]
  rw [queryWith, ← funext hparameter]
  rfl

/-- What comes from an id brings no hash into the query. -/
theorem hash_not_mem_forwarded {key : BinderKey} :
    ∀ p ∈ forwarded key, '#' ∉ p.1.toList ∧ '#' ∉ p.2.toList := by
  intro p hp
  exact KeyId.hash_not_mem (List.mem_filter.mp hp).1

/-- The first parameter of a query, the time of issue. -/
def stamp (now : Timestamp) : List Char :=
  Names.versionTime.toList ++ '=' :: now.render.toList

/-- The further parameters of a query, each behind its separator. -/
def tail (others : List (String × String)) : List Char :=
  others.flatMap fun parameter => '&' :: (written parameter).toList

/-- A query is a time, a kind and a tail. -/
theorem toList_queryWith (now : Timestamp) (kind : Credential)
    (others : List (String × String)) :
    (queryWith now kind others).toList =
      stamp now ++ '&' :: (kind.queryPair.toList ++ tail others) := by
  have hjoin : ∀ ps : List (String × String),
      (String.join (ps.map fun parameter => "&" ++ written parameter)).toList =
        tail ps := by
    intro ps
    induction ps with
    | nil => rfl
    | cons p ps ih =>
        rw [List.map_cons, String.join_cons, String.toList_append, ih,
          String.toList_append]
        rfl
  have hbase : (baseQuery now kind).toList =
      stamp now ++ '&' :: kind.queryPair.toList := by
    simp [baseQuery, stamp]
  rw [queryWith, String.toList_append, hjoin, hbase, List.append_assoc,
    List.cons_append]

/-- The written time has no mark of a query or a fragment in it, nor the letter
y. -/
theorem not_mem_stamp (now : Timestamp) :
    ∀ c ∈ ['y', '?', '&', '#'], c ∉ stamp now := by
  intro c hc hmem
  rcases List.mem_append.mp hmem with h | h
  · have hname : ∀ c ∈ ['y', '?', '&', '#'], c ∉ Names.versionTime.toList :=
      Text.not_mem_of_all (by decide)
    exact hname c hc h
  · rcases List.mem_cons.mp h with rfl | h
    · exact absurd hc (by decide)
    · exact Timestamp.not_mem_render now c hc h

/-- A character other than the equals sign is written only if it stands in the
parameter. -/
theorem not_mem_written {c : Char} {p : String × String} (hc : c ≠ '=')
    (hp : c ∉ p.1.toList ∧ c ∉ p.2.toList) :
    c ∉ (written p).toList := by
  intro h
  rw [written, String.toList_append] at h
  rcases List.mem_append.mp h with h | h
  · exact hp.1 h
  · split at h
    · cases h
    · rw [String.toList_append] at h
      rcases List.mem_append.mp h with h | h
      · exact hc (List.mem_singleton.mp h)
      · exact hp.2 h

/-- A query has no hash if its parameters have none. -/
theorem hash_not_mem_queryWith
    (hothers : ∀ p ∈ others, '#' ∉ p.1.toList ∧ '#' ∉ p.2.toList) :
    '#' ∉ (queryWith now kind others).toList := by
  intro h
  rw [toList_queryWith] at h
  rcases List.mem_append.mp h with h | h
  · exact not_mem_stamp now '#' (by decide) h
  · rcases List.mem_cons.mp h with h | h
    · exact absurd h (by decide)
    · rcases List.mem_append.mp h with h | h
      · have hpair : '#' ∉ kind.queryPair.toList := by cases kind <;> decide
        exact hpair h
      · obtain ⟨p, hp, h⟩ := List.mem_flatMap.mp h
        rcases List.mem_cons.mp h with h | h
        · exact absurd h (by decide)
        · exact not_mem_written (by decide) (hothers p hp) h

/-- The characters of an id, up to its query. -/
def start (material : Bytes) : List Char :=
  Names.keyStart.toList ++ (Address.keyHash material).toList

/-- A fragment has no hash in front. -/
theorem withoutLeading_fragment (kind : Credential) :
    Text.withoutLeading '#' kind.fragment = kind.fragment := by
  cases kind <;> decide

/-- An issued id is the start, a query and a fragment. -/
theorem toList_issuedId (now : Timestamp) (kind : Credential) (pem : String)
    (others : List (String × String)) :
    (issuedId now kind pem others).toList =
      start (Utf8.encode pem)
        ++ '?' :: ((queryWith now kind others).toList ++ '#' ::
          kind.fragment.toList) := by
  have hnonempty : (queryWith now kind others).isEmpty = false := by
    rw [String.isEmpty_eq_false_iff]
    intro h
    have hchars := congrArg String.toList h
    rw [toList_queryWith, stamp] at hchars
    simp at hchars
  simp [issuedId, Identifier.methodId, hnonempty, withoutLeading_fragment,
    Names.reference, start]

/-- The start of an id has no mark of a query or fragment in it. -/
theorem not_mem_start (material : Bytes) :
    ∀ c ∈ ['?', '#'], c ∉ start material := by
  intro c hc hmem
  rcases List.mem_append.mp hmem with h | h
  · have hname : ∀ c ∈ ['?', '#'], c ∉ Names.keyStart.toList :=
      Text.not_mem_of_all (by decide)
    exact hname c hc h
  · have hmark : ∀ c ∈ ['?', '#'], c ∈ [':', ';', '?', '&', '#', '%'] := by simp
    exact Address.not_mem_keyHash _ c (hmark c hc) h

/-- A method that publishes a key has the fragment that it was given, without
the hash. -/
theorem fragment?_methodId (pem query fragment : String)
    (hquery : '#' ∉ query.toList) :
    KeyId.fragment? (Identifier.methodId pem query fragment) =
      some (Text.withoutLeading '#' fragment) := by
  let front :=
    start (Utf8.encode pem) ++
      (if query.isEmpty then "" else "?" ++ query).toList
  have hfront : '#' ∉ front := by
    intro h
    rcases List.mem_append.mp h with h | h
    · exact not_mem_start _ '#' (by decide) h
    · split at h
      · cases h
      · rw [String.toList_append] at h
        rcases List.mem_append.mp h with h | h
        · exact absurd (List.mem_singleton.mp h) (by decide)
        · exact hquery h
  have hid : Identifier.methodId pem query fragment =
      String.ofList
        (front ++ '#' :: (Text.withoutLeading '#' fragment).toList) := by
    rw [← String.toList_inj, String.toList_ofList]
    simp [Identifier.methodId, front, start, Names.reference]
  rw [KeyId.fragment?, hid, Text.cut_append hfront, String.ofList_toList]

/-- An issued id is cut at its hash. -/
theorem issuedId_eq (now : Timestamp) (kind : Credential) (pem : String)
    (others : List (String × String)) :
    issuedId now kind pem others =
      String.ofList
        ((start (Utf8.encode pem) ++ '?' :: (queryWith now kind others).toList)
          ++ '#' :: kind.fragment.toList) := by
  rw [List.append_assoc, List.cons_append, ← toList_issuedId,
    String.ofList_toList]

/-- In front of the fragment there is no hash. -/
theorem hash_not_mem_front (material : Bytes)
    (hothers : ∀ p ∈ others, '#' ∉ p.1.toList ∧ '#' ∉ p.2.toList) :
    '#' ∉ start material ++ '?' :: (queryWith now kind others).toList := by
  intro h
  rcases List.mem_append.mp h with h | h
  · exact not_mem_start material '#' (by decide) h
  · rcases List.mem_cons.mp h with h | h
    · exact absurd h (by decide)
    · exact hash_not_mem_queryWith hothers h

/-- An issued method has the fragment of its kind. -/
theorem fragment?_issuedId (now : Timestamp) (kind : Credential) (pem : String)
    (hothers : ∀ p ∈ others, '#' ∉ p.1.toList ∧ '#' ∉ p.2.toList) :
    KeyId.fragment? (issuedId now kind pem others) = some kind.fragment := by
  rw [issuedId, fragment?_methodId _ _ _ (hash_not_mem_queryWith hothers),
    withoutLeading_fragment]

/-- The query of an issued id is read back. -/
theorem query?_issuedId (now : Timestamp) (kind : Credential) (pem : String)
    (hothers : ∀ p ∈ others, '#' ∉ p.1.toList ∧ '#' ∉ p.2.toList) :
    KeyId.query? (issuedId now kind pem others) =
      some (queryWith now kind others) := by
  rw [KeyId.query?, issuedId_eq, Text.cut_append (hash_not_mem_front _ hothers),
    Text.cut_append (not_mem_start _ '?' (by decide)), String.ofList_toList]

/-- What stands in front of a tail is a parameter of its own. -/
theorem chunks_append_tail {first : List Char} (hfirst : '&' ∉ first)
    (hnamed : first ≠ []) (others : List (String × String)) :
    ((first ++ tail others).splitOn '&').filter (!·.isEmpty) =
      first :: ((tail others).splitOn '&').filter (!·.isEmpty) := by
  have hkept : first.isEmpty = false := List.isEmpty_eq_false_iff.mpr hnamed
  cases others with
  | nil =>
      rw [tail, List.flatMap_nil, List.append_nil,
        List.splitOn_eq_singleton hfirst]
      simp [hkept]
  | cons p others =>
      have htail :
          tail (p :: others) =
            [] ++ '&' :: ((written p).toList ++ tail others) := rfl
      rw [htail, List.splitOn_append_cons_self_of_not_mem List.not_mem_nil,
        List.nil_append, List.splitOn_append_cons_self_of_not_mem hfirst]
      simp [hkept]

/-- A parameter is cut at its first equals sign. -/
theorem pair_append {name : List Char} (hname : '=' ∉ name)
    (value : List Char) :
    KeyId.pair (name ++ '=' :: value) =
      (String.ofList name, String.ofList value) := by
  rw [KeyId.pair, Text.cutChars_append hname]
  rfl

/-- The first parameters of an issued query are its time and its kind. -/
theorem pairsOf_queryWith (now : Timestamp) (kind : Credential)
    (others : List (String × String)) :
    KeyId.pairsOf (queryWith now kind others) =
      (Names.versionTime, now.render) :: (Names.credentialType, kind.name) ::
        KeyId.pairsOf (String.ofList (tail others)) := by
  have hkind : kind.queryPair.toList =
      Names.credentialType.toList ++ '=' :: kind.name.toList := by
    simp [Credential.queryPair]
  have hstampPair :
      KeyId.pair (stamp now) = (Names.versionTime, now.render) := by
    rw [stamp, pair_append (by decide), String.ofList_toList,
      String.ofList_toList]
  have hkindPair : KeyId.pair kind.queryPair.toList =
      (Names.credentialType, kind.name) := by
    rw [hkind, pair_append (by decide), String.ofList_toList,
      String.ofList_toList]
  have hstampKept : (stamp now).isEmpty = false := by simp [stamp]
  have hchunks :
      ((queryWith now kind others).toList.splitOn '&').filter (!·.isEmpty) =
        stamp now :: kind.queryPair.toList :: ((tail others).splitOn '&').filter
          (!·.isEmpty) := by
    rw [toList_queryWith,
      List.splitOn_append_cons_self_of_not_mem
        (not_mem_stamp now '&' (by decide)),
      List.filter_cons, hstampKept,
        chunks_append_tail (by cases kind <;> decide)
          (by cases kind <;> decide)]
    rfl
  rw [KeyId.pairsOf, hchunks, List.map_cons, List.map_cons, hstampPair,
    hkindPair, KeyId.pairsOf, String.toList_ofList]

/-- An issued method has the credential of its kind, whatever further parameters
say. -/
theorem credential?_issuedId (now : Timestamp) (kind : Credential)
    (pem : String)
    (hothers : ∀ p ∈ others, '#' ∉ p.1.toList ∧ '#' ∉ p.2.toList) :
    KeyId.credential? (issuedId now kind pem others) = some kind := by
  have hother : (Names.versionTime == Names.credentialType) = false := by decide
  have hfound : (KeyId.queryParams (issuedId now kind pem others)).find?
      (·.1 == Names.credentialType) =
        some (Names.credentialType, kind.name) := by
    rw [KeyId.queryParams, query?_issuedId now kind pem hothers]
    simp only [pairsOf_queryWith, List.find?_cons, hother, beq_self_eq_true]
  rw [KeyId.credential?, hfound]
  cases kind <;> rfl

/-- The text that says a password key of the device is found in the id of such a
key, and in any other id if a further parameter spells it. -/
theorem holds_issuedId (now : Timestamp) (kind : Credential) (pem : String)
    (others : List (String × String)) :
    Text.holds Credential.passwordOnDevice.queryPair
      (issuedId now kind pem others) = true ↔
        kind = .passwordOnDevice ∨
          ∃ p ∈ others,
            Text.holds Credential.passwordOnDevice.queryPair (written p) =
              true := by
  have hmarks : ∀ c ∈ [':', '?', '&', '#'],
      c ∉ Credential.passwordOnDevice.queryPair.toList :=
    Text.not_mem_of_all (by decide)
  have hlength : Credential.passwordOnDevice.queryPair.toList.length = 31 := by
    decide
  have hstart :
      ¬ Credential.passwordOnDevice.queryPair.toList <:+: start
        (Utf8.encode pem) := by
    have hkey : Names.keyStart.toList = "did:aospacekey".toList ++ [':'] := by
      decide
    rw [start, hkey, List.append_assoc, List.singleton_append,
      Text.infix_append_cons (hmarks ':' (by decide)), not_or]
    constructor
    · exact Text.not_infix_of_length (by decide)
    · exact Text.not_infix_of_length
        (by rw [Address.length_keyHash, hlength]; omega)
  have hstamp : ¬ Credential.passwordOnDevice.queryPair.toList <:+: stamp now :=
    Text.not_infix_of_mem (c := 'y') (by decide)
      (not_mem_stamp now 'y' (by decide))
  have hkind :
      Credential.passwordOnDevice.queryPair.toList <:+: kind.queryPair.toList ↔
      kind = .passwordOnDevice := by
    rw [← Text.holds_iff]
    cases kind <;> decide
  have hfragment :
      ¬ Credential.passwordOnDevice.queryPair.toList <:+:
        kind.fragment.toList := by
    rw [← Text.holds_iff]
    cases kind <;> decide
  rw [Text.holds_iff, toList_issuedId,
    Text.infix_append_cons (hmarks '?' (by decide)),
    Text.infix_append_cons (hmarks '#' (by decide)), toList_queryWith,
    Text.infix_append_cons (hmarks '&' (by decide)), tail,
    Text.infix_separated _ _ _ (hmarks '&' (by decide)), hkind]
  simp only [hstart, hstamp, hfragment, false_or, or_false, Text.holds_iff]

end Issuing

end DidVault
