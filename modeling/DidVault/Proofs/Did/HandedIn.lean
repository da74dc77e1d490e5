import DidVault.Proofs.Did.Edits

/-!
# Keys handed in by the client

The id that comes with a key of the client is free text.  All that it brings
into the id of the issued method are its query parameters, and these are written
behind the time and the kind of the credential.  A parameter that was read from
an id has no separator in its name, and none in its value that would end it
(`KeyId.Clear`), so the parameters of the issued method are read back as they
were written (`Issuing.queryParams_issuedId`).

An attempt to publish such a key has one of four outcomes (`Issuing.Outcome`);
only one of them changes the identifier, and then the new method says what was
asked for (`Issuing.handedIn_settled`).
-/

namespace DidVault

namespace KeyId

variable {cs : List Char} {id : String} {parameter : String × String}

/-- Neither the parameter nor its name ends before it should when it is read. -/
structure Clear (parameter : String × String) : Prop where
  name : '=' ∉ parameter.1.toList
  whole : '&' ∉ parameter.1.toList ∧ '&' ∉ parameter.2.toList

/-- The name of a pair ends before its first `=`. -/
theorem equals_not_mem_pair (cs : List Char) :
    '=' ∉ (pair cs).1.toList := by
  rw [pair, String.toList_ofList]
  intro h
  exact (Text.mem_cutChars_fst h).1 rfl

/-- What was read as a parameter is one that can be read again. -/
theorem clear_of_mem_queryParams (hmem : parameter ∈ queryParams id) :
    Clear parameter := by
  obtain ⟨chunk, rfl, -, hseparator⟩ := mem_queryParams hmem
  have hname : '&' ∉ (pair chunk).1.toList :=
    fun h => hseparator (mem_of_mem_pair (.inl h))
  have hvalue : '&' ∉ (pair chunk).2.toList :=
    fun h => hseparator (mem_of_mem_pair (.inr h))
  exact ⟨equals_not_mem_pair chunk, hname, hvalue⟩

end KeyId

namespace BinderKey

/-- The hash of the key. -/
def hash (key : BinderKey) : String :=
  Address.keyHash (Utf8.encode key.publicKeyPem)

/-- A key that is handed in must have its hash in its id. -/
theorem checkIntegrity_eq (key : BinderKey) :
    key.checkIntegrity =
      if Text.holds key.hash key.id then .ok () else
        .error (.integrity key.id) :=
  rfl

/-- The id that came with the key holds its hash, and a key of RSA can be
read. -/
structure InOrder (key : BinderKey) : Prop where
  bound : Text.holds key.hash key.id = true
  readable : key.keyType = .rsa → Rsa.isPublicPem key.publicKeyPem

end BinderKey

namespace Issuing

open KeyId (Clear)

section Reading

variable {p : String × String} {others : List (String × String)}

/-- A parameter without a value is written without an equals sign. -/
theorem written_of_empty (name : String) : written (name, "") = name := by
  simp [written]

/-- A pair with a value is written as the name, `=` and the value. -/
theorem written_of_nonempty {value : String} (name : String)
    (hvalue : value ≠ "") :
    (written (name, value)).toList = name.toList ++ '=' :: value.toList := by
  have hgiven : value.isEmpty = false := String.isEmpty_eq_false_iff.mpr hvalue
  simp [written, hgiven]

/-- A parameter is read as it was written. -/
theorem pair_written (hp : Clear p) : KeyId.pair (written p).toList = p := by
  obtain ⟨name, value⟩ := p
  by_cases hvalue : value = ""
  · rw [hvalue, written_of_empty, KeyId.pair, Text.cutChars_of_not_mem hp.name]
    simp
  · rw [written_of_nonempty name hvalue, pair_append hp.name,
      String.ofList_toList, String.ofList_toList]

/-- Nothing is written for a parameter with neither name nor value, and for no
other one. -/
theorem isEmpty_written (p : String × String) :
    (written p).toList.isEmpty = (p == ("", "")) := by
  obtain ⟨name, value⟩ := p
  rw [Bool.eq_iff_iff, List.isEmpty_iff, beq_iff_eq, Prod.mk.injEq]
  by_cases hvalue : value = ""
  · rw [hvalue, written_of_empty, String.toList_eq_nil_iff]
    exact ⟨fun h => ⟨h, rfl⟩, And.left⟩
  · rw [written_of_nonempty name hvalue]
    constructor
    · intro h
      exact absurd (List.append_eq_nil_iff.mp h).2 (List.cons_ne_nil _ _)
    · intro h
      exact absurd h.2 hvalue

/-- A tail is read parameter by parameter; one with neither name nor value is
lost. -/
theorem pairsOf_tail (hothers : ∀ p ∈ others, Clear p) :
    KeyId.pairsOf (String.ofList (tail others)) =
      others.filter (· != ("", "")) := by
  have hsplit : (tail others).splitOn '&' = [] :: others.map fun p =>
    (written p).toList :=
      Text.splitOn_separated (fun p => (written p).toList) others
        List.not_mem_nil fun p hp =>
          not_mem_written (by decide) (hothers p hp).whole
  have hkept : ∀ p ∈ others,
      (!(written p).toList.isEmpty) = (p != ("", "")) := by
    intro p _
    rw [isEmpty_written, bne]
  have hread : ∀ p ∈ others.filter (· != ("", "")),
      KeyId.pair (written p).toList = p := by
    intro p hp
    exact pair_written (hothers p (List.mem_filter.mp hp).1)
  rw [KeyId.pairsOf, String.toList_ofList, hsplit,
    List.filter_cons_of_neg (by decide), List.filter_map, List.map_map,
    List.filter_congr (q := (· != ("", "")))]
  · exact (List.map_congr_left hread).trans (List.map_id _)
  · exact hkept

/-- The parameters of an issued method: its time, its kind, and the further
ones. -/
theorem queryParams_issuedId (now : Timestamp) (kind : Credential)
    (pem : String) (hhash : ∀ p ∈ others, '#' ∉ p.1.toList ∧ '#' ∉ p.2.toList)
    (hothers : ∀ p ∈ others, Clear p) :
    KeyId.queryParams (issuedId now kind pem others) =
      (Names.versionTime, now.render) :: (Names.credentialType, kind.name) ::
        others.filter (· != ("", "")) := by
  rw [KeyId.queryParams, query?_issuedId now kind pem hhash]
  simp only [pairsOf_queryWith, pairsOf_tail hothers]

end Reading

variable {now : Timestamp} {kind : Credential} {key : BinderKey}
  {i : Identifier} {d : Desk}
variable {s' : Identifier × Desk}

/-- The pairs that are passed on hold no `&`, and no `=` in their names. -/
theorem clear_of_mem_forwarded : ∀ p ∈ forwarded key, Clear p := by
  intro p hp
  exact KeyId.clear_of_mem_queryParams (List.mem_filter.mp hp).1

/-- The method publishes the key as the credential that was asked for, and it is
read so. -/
structure Genuine (now : Timestamp) (kind : Credential) (key : BinderKey)
    (issued : Issued) (m : VerificationMethod) : Prop where
  id : m.id = Names.keyStart ++ key.hash ++ "?" ++ issued.query ++ "#" ++
    kind.fragment
  answer : issued.keyId = m.id
  text : issued.query = queryWith now kind (forwarded key)
  material : m.publicKeyPem = some key.publicKeyPem ∧ m.keyType = key.keyType
  fragment : m.fragment? = some kind.fragment
  query : KeyId.query? m.id = some issued.query
  credential : m.credential? = some kind
  parameters : KeyId.queryParams m.id =
    (Names.versionTime, now.render) :: (Names.credentialType, kind.name) ::
      (forwarded key).filter (· != ("", ""))

/-- What comes of publishing a key that was handed in, with the identifier at
the end. -/
inductive Outcome (now : Timestamp) (kind : Credential) (key : BinderKey)
    (i : Identifier) :
    Except Error Issued → Identifier → Prop where
  /-- The id is one of another key. -/
  | foreign (hbound : Text.holds key.hash key.id = false) :
      Outcome now kind key i (.error (.did (.integrity key.id))) i
  /-- The key is said to be one of RSA and cannot be read. -/
  | unreadable (hbound : Text.holds key.hash key.id = true)
      (hrsa : key.keyType = .rsa) (hpem : ¬ Rsa.isPublicPem key.publicKeyPem) :
      Outcome now kind key i (.error (.key .invalidKey)) i
  /-- The key is published already. -/
  | double (horder : key.InOrder) {m : VerificationMethod} (hm : m ∈ i.methods)
      (hdouble : m.materialHash? = some key.hash) :
      Outcome now kind key i (.error (.did (.duplicateKey key.hash))) i
  /-- The key is published at the end of the identifier. -/
  | published (horder : key.InOrder)
      (hfresh : ∀ m ∈ i.methods, m.materialHash? ≠ some key.hash)
      {issued : Issued} {m : VerificationMethod}
      (hgenuine : Genuine now kind key issued m)
      (hmethods : (withExternal now kind key i).methods = i.methods ++ [m]) :
      Outcome now kind key i (.ok issued) (withExternal now kind key i)

/-- The method of a key that was handed in says what was asked for, whatever id
came with it. -/
theorem genuine_issuedMethod (now : Timestamp) (kind : Credential)
    (key : BinderKey) (controller : String) :
    Genuine now kind key ⟨issuedId now kind key.publicKeyPem (forwarded key),
      queryWith now kind (forwarded key)⟩
      (issuedMethod now kind key.keyType key.publicKeyPem controller
        (forwarded key)) where
  id := by
    show issuedId now kind key.publicKeyPem (forwarded key) = _
    rw [← String.toList_inj, toList_issuedId]
    simp [start, BinderKey.hash]
  answer := rfl
  text := rfl
  material := ⟨rfl, rfl⟩
  fragment := fragment?_issuedId now kind key.publicKeyPem
    hash_not_mem_forwarded
  query := query?_issuedId now kind key.publicKeyPem hash_not_mem_forwarded
  credential :=
    credential?_issuedId now kind key.publicKeyPem hash_not_mem_forwarded
  parameters :=
    queryParams_issuedId now kind key.publicKeyPem hash_not_mem_forwarded
      clear_of_mem_forwarded

/-- A key whose id and text are in order is published, or some method has it. -/
theorem outcome_of_publish {r : Except Error Issued} (horder : key.InOrder)
    (hrun : Runs
      (publish kind key.keyType key.publicKeyPem (forwardedQuery now kind key)
        none) (i, d) r s') :
    Outcome now kind key i r s'.1 ∧ s'.2 = d := by
  rcases publish_cases hrun with ⟨hdouble, rfl, rfl⟩ | ⟨hfresh, rfl, rfl⟩
  · obtain ⟨m, hm, hsame⟩ := List.any_eq_true.mp hdouble
    exact ⟨.double horder hm (beq_iff_eq.mp hsame), rfl⟩
  · have hother : ∀ m ∈ i.methods, m.materialHash? ≠ some key.hash := by
      intro m hm hsame
      have hlooked := List.any_eq_false.mp hfresh m hm
      exact hlooked (beq_iff_eq.mpr hsame)
    have hgenuine :=
      genuine_issuedMethod now kind key (Names.reference i.fragment)
    have hmethods : (withExternal now kind key i).methods = i.methods ++
        [issuedMethod now kind key.keyType key.publicKeyPem
          (Names.reference i.fragment) (forwarded key)] := by
      rw [withExternal, forwardedQuery_eq, Identifier.methods_published]
    rw [forwardedQuery_eq]
    refine ⟨?_, rfl⟩
    have hdone := Outcome.published horder hother hgenuine hmethods
    rw [withExternal, forwardedQuery_eq] at hdone
    exact hdone

/-- Every attempt to publish a key that was handed in has one of the four
outcomes. -/
theorem outcome_of_publishExternal {r : Except Error Issued}
    (hrun : Runs (publishExternal now kind key) (i, d) r s') :
    Outcome now kind key i r s'.1 ∧ s'.2 = d := by
  unfold publishExternal at hrun
  cases hbound : Text.holds key.hash key.id with
  | false =>
      have hcheck : key.checkIntegrity = .error (.integrity key.id) := by
        rw [BinderKey.checkIntegrity_eq, hbound]
        rfl
      rw [hcheck] at hrun
      obtain ⟨rfl, rfl⟩ := Runs.throw_iff.mp hrun
      exact ⟨.foreign hbound, rfl⟩
  | true =>
      have hcheck : key.checkIntegrity = .ok () := by
        rw [BinderKey.checkIntegrity_eq, hbound]
        rfl
      rw [hcheck] at hrun
      dsimp only at hrun
      split at hrun
      · next hbad =>
          obtain ⟨rfl, rfl⟩ := Runs.throw_iff.mp hrun
          exact ⟨.unreadable hbound hbad.1 hbad.2, rfl⟩
      · next hgood =>
          have hpem : key.keyType = .rsa →
              Rsa.isPublicPem key.publicKeyPem := by
            intro hrsa
            by_contra hpem
            exact hgood ⟨hrsa, hpem⟩
          exact outcome_of_publish ⟨hbound, hpem⟩ hrun

variable {keys : List BinderKey}

/-- The binder's key is one of the keys. -/
theorem mem_of_binder? (hkey : BinderKey.binder? keys = some key) :
    key ∈ keys := by
  unfold BinderKey.binder? at hkey
  cases hsaid : keys.find? (·.credential? == some .binder) with
  | some said =>
      rw [hsaid] at hkey
      obtain rfl := Option.some.inj hkey
      exact List.mem_of_find?_eq_some hsaid
  | none =>
      rw [hsaid] at hkey
      exact List.mem_of_find?_eq_some hkey

/-- One of the keys is published as the client's own, if there is any for it. -/
theorem addBinder_settled {r : Except Error Issued}
    (hrun : Runs (addBinder now keys) (i, d) r s') :
    s'.2 = d ∧
      match BinderKey.binder? keys with
      | some key => key ∈ keys ∧ Outcome now .binder key i r s'.1
      | none =>
          r = .error (.notFound "binder verification method") ∧ s'.1 = i := by
  unfold addBinder at hrun
  cases hkey : BinderKey.binder? keys with
  | some key =>
      rw [hkey] at hrun
      obtain ⟨houtcome, hdesk⟩ := outcome_of_publishExternal hrun
      exact ⟨hdesk, mem_of_binder? hkey, houtcome⟩
  | none =>
      rw [hkey] at hrun
      obtain ⟨rfl, rfl⟩ := Runs.throw_iff.mp hrun
      exact ⟨rfl, rfl, rfl⟩

/-- The key that says so is published as the client's password key; without one
nothing happens. -/
theorem addPasswordOnBinder_settled {r : Except Error (Option Issued)}
    (hrun : Runs (addPasswordOnBinder now keys) (i, d) r s') :
    s'.2 = d ∧
      match BinderKey.passwordOnBinder? keys with
      | some key => key ∈ keys ∧
          ∃ r₀, r = r₀.map some ∧ Outcome now .passwordOnBinder key i r₀ s'.1
      | none => r = .ok none ∧ s'.1 = i := by
  unfold addPasswordOnBinder at hrun
  cases hkey : BinderKey.passwordOnBinder? keys with
  | some key =>
      rw [hkey] at hrun
      obtain ⟨r₀, s₁, hpublish⟩ :=
        Runs.ends (publishExternal now .passwordOnBinder key) (i, d)
      obtain ⟨houtcome, hdesk⟩ := outcome_of_publishExternal hpublish
      have hend : r = r₀.map some ∧ s' = s₁ := by
        cases r₀ with
        | ok issued =>
            exact Runs.pure_iff.mp ((Runs.bind_of_ok hpublish).mp hrun)
        | error e => exact (Runs.bind_of_error hpublish).mp hrun
      obtain ⟨rfl, rfl⟩ := hend
      exact ⟨hdesk, List.mem_of_find?_eq_some hkey, r₀, rfl, houtcome⟩
  | none =>
      rw [hkey] at hrun
      obtain ⟨rfl, rfl⟩ := Runs.pure_iff.mp hrun
      exact ⟨rfl, rfl, rfl⟩

/-- Whatever ids come with the keys of the client: a key is published as what
the operation is for and read back as such, with the parameters of its id behind
the issued ones, or else the identifier is unchanged. -/
theorem handedIn_settled (now : Timestamp) (keys : List BinderKey)
    (i : Identifier) (d : Desk) :
    (∀ r s', Runs (addBinder now keys) (i, d) r s' → s'.2 = d ∧
      match BinderKey.binder? keys with
        | some key => key ∈ keys ∧ Outcome now .binder key i r s'.1
        | none =>
            r = .error (.notFound "binder verification method") ∧ s'.1 = i) ∧
      ∀ r s', Runs (addPasswordOnBinder now keys) (i, d) r s' → s'.2 = d ∧
        match BinderKey.passwordOnBinder? keys with
        | some key => key ∈ keys ∧
            ∃ r₀, r = r₀.map some ∧ Outcome now .passwordOnBinder key i r₀ s'.1
        | none => r = .ok none ∧ s'.1 = i := by
  constructor
  · intro r s' hrun
    exact addBinder_settled hrun
  · intro r s' hrun
    exact addPasswordOnBinder_settled hrun

end Issuing

/-- A key whose id names the credential and the time twice, has a parameter
without name and value, and goes on behind a hash. -/
def BinderKey.hostile : BinderKey where
  id := "AACwxIeqwGjfSPmZ5tE=?credentialType=passwordonbinder" ++
    "&versionTime=1&=&a=&b?c==d&credentialType=device#x?credentialType=binder"
  keyType := .ed25519
  publicKeyPem := "client"

namespace Issuing

/-- The pairs of a query that tries everything are taken literally. -/
theorem queryParams_hostile :
    KeyId.queryParams BinderKey.hostile.id =
    [("credentialType", "passwordonbinder"), ("versionTime", "1"),
      ("", ""), ("a", ""), ("b?c", "=d"), ("credentialType", "device")] := by
  decide +kernel

/-- The first credential that the query names is the one that counts. -/
theorem credential?_hostile :
    BinderKey.hostile.credential? = some .passwordOnBinder := by
  rw [BinderKey.credential?, KeyId.credential?, queryParams_hostile]
  decide

/-- The hostile key is published as a password key, with two of its parameters,
and it is none that the client could publish as its own. -/
theorem settled_of_hostile :
    (∃ issued s' m,
          Runs (addPasswordOnBinder ⟨0, 0⟩ [.hostile]) (.new, .bare [])
            (.ok (some issued)) s' ∧ s'.1.methods = [m] ∧
            m.fragment? = some "key-3" ∧
        KeyId.queryParams m.id = [("versionTime", "1970-01-01T00:00:00Z"),
          ("credentialType", "passwordonbinder"), ("a", ""), ("b?c", "=d")]) ∧
      ∀ r s', Runs (addBinder ⟨0, 0⟩ [.hostile]) (.new, .bare []) r s' →
        r = .error (.notFound "binder verification method") ∧ s'.1 = .new := by
  have hfound : BinderKey.passwordOnBinder? [.hostile] = some .hostile := by
    simp [BinderKey.passwordOnBinder?, credential?_hostile]
  have hnone : BinderKey.binder? [.hostile] = none := by
    simp [BinderKey.binder?, credential?_hostile]
  have hsettled := handedIn_settled ⟨0, 0⟩ [.hostile] .new (.bare [])
  rw [hfound, hnone] at hsettled
  constructor
  · have hok : (Id.run ((addPasswordOnBinder ⟨0, 0⟩ [.hostile]).run.run
        (.new, .bare []))).1.isOk = true := by decide +kernel
    obtain ⟨answer, ⟨i', d'⟩, hrun⟩ := Runs.exists_of_isOk hok
    obtain ⟨-, -, r₀, hanswer, houtcome⟩ := hsettled.2 _ _ hrun
    cases houtcome with
    | foreign _ => cases hanswer
    | unreadable _ _ _ => cases hanswer
    | double _ _ _ => cases hanswer
    | @published _ _ issued m hgenuine hmethods =>
        cases hanswer
        have hforwarded : (forwarded .hostile).filter (· != ("", "")) =
            [("a", ""), ("b?c", "=d")] := by
          rw [forwarded, queryParams_hostile]
          decide
        have hparameters := hgenuine.parameters
        rw [hforwarded] at hparameters
        exact ⟨issued, _, m, hrun, hmethods, hgenuine.fragment,
          hparameters.trans rfl⟩
  · intro r s' hrun
    exact (hsettled.1 r s' hrun).2

end Issuing

end DidVault
