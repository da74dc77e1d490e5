import DidVault.Proofs.Did.Edits
import DidVault.Proofs.Did.Publishing
import DidVault.Proofs.Keys.Pool
import DidVault.Proofs.Registry.Aside
import DidVault.Proofs.Registry.Credentials
import DidVault.Proofs.Registry.Keeping

/-!
# What a creation takes

Where the store refuses nothing, a creation succeeds exactly if there is an own
key for the account and a pair for its password key, enough random bytes, a key
of the client, and if these keys fit together (`Registry.Fit`): what was handed
in is in order, and no key is published twice (`Registry.succeeds_create_iff`).
Time and password do not matter.

What is issued then is always a document that stands
(`Registry.standing_of_issueAll`), so that it is valid and storing it cannot
fail.
-/

namespace DidVault

open DeskM Registry Identifier Issuing

/-! ## Supplies -/

/-- The pair for the next password key: the one that waits for it, or else the
next one that is made. -/
def Desk.freshPair (d : Desk) : Except GenerationFault KeyPair :=
  match d.pool.password with
  | some pair => .ok pair
  | none => d.source.outcome d.source.asked

/-- At most the records have changed. -/
def Desk.SameSupplies (d d' : Desk) : Prop :=
  ∃ v, d' = { d with view := v }

variable {d d₁ d' : Desk} {account password : String}

namespace Custody

/-- What is taken or made for a password key is the fresh pair; the waiting one
is used up then, and no other is made beside it. -/
theorem runs_takeOrMake {r : Except Error KeyPair}
    (hrun : Runs (takeOrMake .password) d r d') :
    r = d.freshPair.mapError (fun fault => .key (.generation fault)) ∧
      d'.entropy = d.entropy ∧ d'.pool.password = none ∧
      (d.pool.password.isSome = true → d'.source = d.source) := by
  rcases takeOrMake_cases hrun with ⟨pair, hpool, rfl, rfl⟩ | ⟨hpool, hmake⟩
  · have hfresh : d.freshPair = .ok pair := by
      rw [Desk.freshPair, show d.pool.password = some pair from hpool]
    rw [hfresh]
    exact ⟨rfl, rfl, rfl, fun _ => rfl⟩
  · obtain ⟨rfl, rfl⟩ := makePair_iff.mp hmake
    have hfresh : d.freshPair = d.source.outcome d.source.asked := by
      rw [Desk.freshPair, show d.pool.password = none from hpool]
    rw [hfresh]
    refine ⟨rfl, rfl, hpool, fun hwaits => ?_⟩
    rw [show d.pool.password = none from hpool] at hwaits
    cases hwaits

/-- A password key that is not there is made of the fresh pair, unless there is
no such pair or no first block to wrap it from. -/
theorem passwordKey_cases {r : Except Error PasswordKey} (hready : d.view.Ready)
    (habsent : d.view.lookup (Slot.passwordKey account).key = none)
    (hrun : Runs (passwordKey account password) d r d') :
    (∃ fault, d.freshPair = .error fault ∧
      r = .error (.key (.generation fault))) ∨
      (d.freshPair.isOk = true ∧ d.entropy.length < Cbc.blockLength ∧
        r = .error (.key .noEntropy)) ∨
      ∃ pair, d.freshPair = .ok pair ∧ Cbc.blockLength ≤ d.entropy.length ∧
        d'.entropy = d.entropy.drop Cbc.blockLength ∧ d'.pool.password = none ∧
        (d.pool.password.isSome = true → d'.source = d.source) ∧
        r = .ok ⟨Wrapping.wrapWith (d.entropy.take Cbc.blockLength)
          (Utf8.encode pair.privatePem) password, pair⟩ := by
  let d₀ : Desk := { d with view := { d.view with calls := d.view.calls + 1 } }
  have hfound := RecordsM.read?_of_unrefused (s := .passwordKey account)
    (hready.free d.view.calls)
  rw [habsent] at hfound
  have hread : Runs (records (.passwordKey? account)) d (.ok none) d₀ :=
    records_iff.mpr ⟨_, _, hfound, rfl, rfl⟩
  have hready₀ : d₀.view.Ready := ⟨hready.free, hready.text⟩
  replace hrun := (Runs.bind_of_ok hread).mp hrun
  obtain ⟨r₁, d₁, hmake⟩ := Runs.ends (takeOrMake .password) d₀
  obtain ⟨hmade, hentropy, hpool, hsource⟩ := runs_takeOrMake hmake
  have hview₁ := leavesView_takeOrMake .password hmake
  change d₁.entropy = d.entropy at hentropy
  change r₁ = d.freshPair.mapError _ at hmade
  change d.pool.password.isSome = true → d₁.source = d.source at hsource
  cases hfresh : d.freshPair with
  | error fault =>
      rw [hfresh] at hmade
      obtain rfl : r₁ = .error (.key (.generation fault)) := hmade
      exact .inl ⟨fault, rfl, ((Runs.bind_of_error hmake).mp hrun).1⟩
  | ok pair =>
      rw [hfresh] at hmade
      obtain rfl : r₁ = .ok pair := hmade
      replace hrun := (Runs.bind_of_ok hmake).mp hrun
      obtain ⟨r₂, d₂, hwrap⟩ :=
        Runs.ends (wrap (Utf8.encode pair.privatePem) password) d₁
      have hview₂ := leavesView_wrap _ _ hwrap
      have hwrapped := wrap_cases hwrap
      rw [hentropy] at hwrapped
      rcases hwrapped with ⟨hshort, rfl⟩ | ⟨hlong, hr₂, hd₂⟩
      · exact .inr (.inl ⟨rfl, hshort, ((Runs.bind_of_error hwrap).mp hrun).1⟩)
      · refine .inr (.inr ⟨pair, rfl, hlong, ?_⟩)
        revert hr₂
        generalize Wrapping.wrapWith _ _ _ = wrapped
        rintro rfl
        replace hrun := (Runs.bind_of_ok hwrap).mp hrun
        obtain ⟨r₃, d₃, hput⟩ :=
          Runs.ends (records (.putPasswordKey account wrapped)) d₂
        have hready₂ : d₂.view.Ready := by
          rw [hview₂, hview₁]
          exact hready₀
        obtain ⟨⟨u, rfl⟩, -⟩ :=
          (RecordsM.sure_put (.passwordKey account) wrapped False.elim).records
            hready₂ hput
        obtain ⟨v, -, hd₃⟩ := records_ok hput
        rw [Runs.bind_of_ok hput] at hrun
        obtain ⟨hr, hd'⟩ := Runs.pure_iff.mp hrun
        rw [hd', hd₃, hd₂]
        exact ⟨rfl, hpool, hsource, hr⟩

/-- A password key that was not there is wrapped under the password. -/
theorem fresh_of_passwordKey {key : PasswordKey} (hready : d.view.Ready)
    (habsent : d.view.lookup (Slot.passwordKey account).key = none)
    (hrun : Runs (passwordKey account password) d (.ok key) d') :
    d.freshPair = .ok key.pair ∧ Cbc.blockLength ≤ d.entropy.length ∧
      d'.entropy = d.entropy.drop Cbc.blockLength ∧
      key.wrapped = Wrapping.wrapWith (d.entropy.take Cbc.blockLength)
        (Utf8.encode key.pair.privatePem) password ∧ d'.pool.password = none ∧
      (d.pool.password.isSome = true → d'.source = d.source) := by
  rcases passwordKey_cases hready habsent hrun with
    ⟨fault, -, hr⟩ | ⟨-, -, hr⟩
      | ⟨pair, hpair, hlong, hentropy, hpool, hsource, hr⟩
  · cases hr
  · cases hr
  · obtain rfl : key.pair = pair := congrArg PasswordKey.pair (Except.ok.inj hr)
    exact ⟨hpair, hlong, hentropy,
      congrArg PasswordKey.wrapped (Except.ok.inj hr), hpool, hsource⟩

/-- Removing a password key leaves the desk ready, with the same supplies. -/
theorem ready_of_delete (hready : d.view.Ready)
    (hdelete : Runs (delete account) d (.ok ()) d₁) :
    d₁.view.Ready ∧ ∃ v, d₁ = { d with view := v } := by
  obtain ⟨v, -, rfl⟩ := records_ok hdelete
  refine ⟨hready.aside ⟨_, makes_delete.ok hdelete, fun c hc => ?_⟩, v, rfl⟩
  rw [List.mem_singleton.mp hc]
  exact id

/-- Asking for the account's own key leaves the desk ready. -/
theorem ready_of_spaceKey {own : KeyPair} (hready : d.view.Ready)
    (hown : Runs (spaceKey account) d (.ok own) d₁) : d₁.view.Ready :=
  hready.aside ⟨_, (spaceKey_ok hown).1, aside_of_ownChanges⟩

/-- The account's own key is had without random bytes and without the pair that
waits for a password key; if one waits for it, too, none is made. -/
theorem kept_of_spaceKey {own : KeyPair}
    (hrun : Runs (spaceKey account) d (.ok own) d₁) :
    d₁.pool.password = d.pool.password ∧ d₁.entropy = d.entropy ∧
      (d.pool.space.isSome = true → d₁.source = d.source) := by
  rcases (spaceKey_ok hrun).2 with ⟨-, -, -, hd₁⟩ | ⟨-, v, d₂, htake, hd₁⟩
  · rw [hd₁]
    exact ⟨rfl, rfl, fun _ => rfl⟩
  · rw [hd₁]
    rcases takeOrMake_cases htake with ⟨pair, -, -, rfl⟩ | ⟨hpool, hmake⟩
    · exact ⟨rfl, rfl, fun _ => rfl⟩
    · obtain ⟨-, rfl⟩ := makePair_iff.mp hmake
      refine ⟨rfl, rfl, fun hwaits => ?_⟩
      rw [show d.pool.space = none from hpool] at hwaits
      cases hwaits

/-- An account without keys is given the pairs that wait. -/
theorem waiting_of_spaceKey {own pair : KeyPair} (hready : d.view.Ready)
    (habsent : d.view.lookup (Slot.spaceKey account).key = none)
    (hspace : d.pool.space = some own)
    (hpassword : d.pool.password = some pair) :
    ∃ d₁, Runs (spaceKey account) d (.ok own) d₁ ∧ d₁.freshPair = .ok pair ∧
      d₁.entropy = d.entropy := by
  obtain ⟨d₁, hown⟩ := spaceKey_of_pool hready.free habsent hspace
  obtain ⟨hkept, hentropy, -⟩ := kept_of_spaceKey hown
  refine ⟨d₁, hown, ?_, hentropy⟩
  rw [Desk.freshPair, hkept, hpassword]

end Custody

namespace Registry

/-! ## What is issued -/

/-- What all steps keep is kept by issuing the credentials of a document. -/
theorem keepsIdentifier_issueAll {P : Identifier → Prop} (hstable : Stable P)
    (now : Timestamp) (account password : String) (keys : List BinderKey) :
    KeepsIdentifier P (issueAll now account password keys) := by
  have hclosed := closed_keepsIdentifier P
  refine hclosed.bind (keepsIdentifier_addDevice hstable account) fun _ => ?_
  refine hclosed.bind (keepsIdentifier_addBinder hstable keys) fun _ => ?_
  refine hclosed.bind
    (keepsIdentifier_addPasswordOnDevice hstable account password) fun _ => ?_
  refine hclosed.bind (keepsIdentifier_addPasswordOnBinder hstable keys)
    fun _ => ?_
  exact hclosed.bind (keepsIdentifier_composeRecovery hstable) fun _ =>
    hclosed.pure _

/-- A password key of the device is found by its id. -/
theorem holds_ownPassword (now : Timestamp) (pem : String) :
    Text.holds Credential.passwordOnDevice.queryPair
      (ownMethod now .passwordOnDevice pem).id = true :=
  (holds_issuedId now .passwordOnDevice pem []).mpr (.inl rfl)

/-- The keys of a new document. -/
def issuedArrangement (now : Timestamp) (own password : KeyPair)
    (binder : BinderKey) (keys : List BinderKey) : Arrangement where
  anchors := ownMethod now .device own.publicPem :: keptBinder now binder
  secret := ownMethod now .passwordOnDevice password.publicPem
  behind := (BinderKey.passwordOnBinder? keys).toList.map
    (externalMethod now .passwordOnBinder)
  anchoring m hm := by
    constructor
    · rcases List.mem_cons.mp hm with rfl | hkept
      · exact ⟨.device, List.mem_cons_self, _, publishes_ownMethod ..⟩
      · rw [keptBinder] at hkept
        split at hkept
        · cases hkept
        · rw [List.mem_singleton.mp hkept]
          exact ⟨.binder, List.mem_cons_of_mem _ List.mem_cons_self, _,
            publishes_externalMethod ..⟩
    · rw [← filter_holds now own.publicPem binder] at hm
      simpa using (List.mem_filter.mp hm).2
  device := ⟨_, List.mem_cons_self, _, publishes_ownMethod ..⟩
  opening := ⟨_, publishes_ownMethod ..⟩
  replaced := holds_ownPassword now password.publicPem
  joining m hm := by
    obtain ⟨key, -, rfl⟩ := List.mem_map.mp hm
    exact ⟨_, publishes_externalMethod ..⟩

/-- The credentials of a new document are arranged as its keys. -/
theorem keys_issuedArrangement (now : Timestamp) (own password : KeyPair)
    (binder : BinderKey) (keys : List BinderKey) :
    (credentials now own password binder keys).methods =
      (issuedArrangement now own password binder keys).keys := by
  rw [methods_credentials, List.append_assoc]
  rfl

variable {now : Timestamp} {keys : List BinderKey} {binder : BinderKey}
  {pem : String}

/-- The identifier that is issued for a new document stands. -/
theorem standing_of_issueAll {i : Identifier} {key : PasswordKey}
    (hrun : Runs (issueAll now account password keys) (.new, d)
      (.ok key) (i, d')) : i.Standing := by
  have hsound := keepsIdentifier_issueAll stable_sound _ _ _ _ hrun sound_new
  have hrefers := keepsIdentifier_issueAll stable_refers _ _ _ _ hrun refers_new
  obtain ⟨own, _, _, d₂, binder, policy, -, -, -, -, -, hpolicy, hi⟩ :=
    issueAll_ok hrun
  rw [hi] at hsound hrefers ⊢
  exact standing_installPolicy
    (keys_issuedArrangement now own key.pair binder keys) hpolicy hsound hrefers
      (fragment_credentials ..)
        (founded_credentials now own key.pair binder keys)
    (invocations_credentials ..)

/-! ## Keys that fit together -/

/-- The keys that were handed in are in order, the client's own is not that of
the account, and no key is published twice. -/
structure Fit (own password : String) (binder : BinderKey)
    (keys : List BinderKey) : Prop where
  inOrder : binder.InOrder
  joining : ∀ key, BinderKey.passwordOnBinder? keys = some key → key.InOrder
  apart : binder.hash ≠ Address.keyHash (Utf8.encode own)
  distinct : (keyHashes (issuedKeys own binder password keys)).Nodup

section Fit

variable {own : String}

/-- Two different keys are published once each. -/
theorem nodup_anchorKeys (hapart : binder.hash ∉ keyHashes [(.device, own)]) :
    (keyHashes (anchorKeys own binder)).Nodup := by
  unfold anchorKeys
  split
  · exact List.nodup_singleton _
  · exact (nodup_keyHashes_concat [(.device, own)] _).mpr
      ⟨hapart, List.nodup_singleton _⟩

/-- All keys are published once if the anchors are, the password key is not
among them, and the client's password key not among all of these. -/
theorem nodup_issuedKeys :
    (keyHashes (issuedKeys own binder pem keys)).Nodup ↔
      (keyHashes (anchorKeys own binder)).Nodup ∧
        Address.keyHash (Utf8.encode pem) ∉ keyHashes (anchorKeys own binder) ∧
        ∀ key, BinderKey.passwordOnBinder? keys = some key →
          key.hash ∉ keyHashes
            (anchorKeys own binder ++ [(.passwordOnDevice, pem)]) := by
  rw [issuedKeys_eq]
  cases BinderKey.passwordOnBinder? keys with
  | none =>
      rw [Option.toList_none, List.map_nil, List.append_nil,
        nodup_keyHashes_concat]
      simp [and_comm]
  | some key =>
      rw [Option.toList_some, List.map_singleton, nodup_keyHashes_concat,
        nodup_keyHashes_concat]
      simp [BinderKey.hash, and_comm, and_assoc]

/-- Every key differs from those that are published before it. -/
theorem fit_iff :
    Fit own pem binder keys ↔
      binder.InOrder ∧ binder.hash ∉ keyHashes [(.device, own)] ∧
      Address.keyHash (Utf8.encode pem) ∉ keyHashes (anchorKeys own binder) ∧
      ∀ key, BinderKey.passwordOnBinder? keys = some key → key.InOrder ∧
        key.hash ∉ keyHashes
          (anchorKeys own binder ++ [(.passwordOnDevice, pem)]) := by
  have hapart : binder.hash ∉ keyHashes [(.device, own)] ↔
      binder.hash ≠ Address.keyHash (Utf8.encode own) := by
    rw [keyHashes, List.map_singleton, List.mem_singleton]
  constructor
  · rintro ⟨horder, hjoining, hne, hdistinct⟩
    obtain ⟨-, hpassword, hclient⟩ := nodup_issuedKeys.mp hdistinct
    exact ⟨horder, hapart.mpr hne, hpassword,
      fun key hkey => ⟨hjoining key hkey, hclient key hkey⟩⟩
  · rintro ⟨horder, hne, hpassword, hclient⟩
    refine ⟨horder, fun key hkey => (hclient key hkey).1, hapart.mp hne, ?_⟩
    exact nodup_issuedKeys.mpr
      ⟨nodup_anchorKeys hne, hpassword, fun key hkey => (hclient key hkey).2⟩

end Fit

section Lacking

variable {own password : KeyPair}

/-- Behind the device, a key is new if it is not the account's own. -/
theorem lacks_device :
    (Identifier.new.published .device .rsa own.publicPem
        (baseQuery now .device) none).Lacks pem ↔
      Address.keyHash (Utf8.encode pem) ∉
        keyHashes [(.device, own.publicPem)] := by
  refine lacks_iff_of_published ?_
  rw [methods_published_base .new now .device own.publicPem rfl]
  exact .cons (publishes_ownMethod ..) .nil

/-- The client's key may be removed with an older password key. -/
theorem lacks_anchors :
    ((withExternal now .binder binder
        (Identifier.new.published .device .rsa own.publicPem
          (baseQuery now .device) none)).removeHolding
            Credential.passwordOnDevice.queryPair).1.Lacks pem ↔
      Address.keyHash (Utf8.encode pem) ∉
        keyHashes (anchorKeys own.publicPem binder) := by
  have hmethods :
      (withExternal now .binder binder
        (Identifier.new.published .device .rsa own.publicPem
          (baseQuery now .device) none)).methods =
      [ownMethod now .device own.publicPem,
        externalMethod now .binder binder] := by
    rw [methods_withExternal _ now .binder binder (fragment_published ..),
      methods_published_base .new now .device own.publicPem rfl]
    rfl
  refine lacks_iff_of_published ?_
  rw [removeHolding, methods_removeWhere, hmethods, filter_holds]
  exact publishes_anchors ..

/-- Behind the required credentials comes the client's password key, and then
the policy. -/
theorem succeeds_joining {key : PasswordKey} :
    Succeeds (addPasswordOnBinder now keys >>= fun _ =>
          composeRecovery >>= fun _ => pure key)
        (requiredCredentials now own password binder, d) ↔
      (∀ client, BinderKey.passwordOnBinder? keys = some client →
        client.InOrder ∧
          client.hash ∉ keyHashes (anchorKeys own.publicPem binder ++
            [(.passwordOnDevice, password.publicPem)])) ∧
        seedLength ≤ d.entropy.length := by
  have hmethods := keys_issuedArrangement now own password binder keys
  rw [credentials] at hmethods
  rw [succeeds_addPasswordOnBinder_then]
  cases hclient : BinderKey.passwordOnBinder? keys with
  | some client =>
      rw [hclient] at hmethods
      dsimp only
      rw [succeeds_composeRecovery_then hmethods, ← and_assoc,
        lacks_iff_of_published
          (publishes_requiredCredentials now own password binder)]
      simp [BinderKey.hash]
  | none =>
      rw [hclient] at hmethods
      dsimp only
      rw [succeeds_composeRecovery_then hmethods]
      simp

end Lacking

/-! ## When a creation succeeds -/

/-- The credentials of a document are issued exactly if each of the keys can be
had, they fit together, and there are bytes for the seed. -/
theorem succeeds_issueAll_iff :
    Succeeds (issueAll now account password keys) (.new, d) ↔
      ∃ own d₁, Runs (Custody.spaceKey account) d (.ok own) d₁ ∧
        ∃ binder, BinderKey.binder? keys = some binder ∧
        ∃ d₂, Runs (Custody.delete account) d₁ (.ok ()) d₂ ∧
        ∃ key d₃, Runs (Custody.passwordKey account password) d₂ (.ok key) d₃ ∧
          Fit own.publicPem key.pair.publicPem binder keys ∧
          seedLength ≤ d₃.entropy.length := by
  let behind (key : PasswordKey) : IssueM PasswordKey :=
    addPasswordOnBinder now keys >>= fun _ =>
      composeRecovery >>= fun _ => pure key
  have hsteps : issueAll now account password keys =
      (addDevice now account >>= fun _ => addBinder now keys >>= fun _ =>
        addPasswordOnDevice now account password >>= fun answer =>
          behind answer.2) := rfl
  rw [hsteps, succeeds_addDevice_then]
  refine exists_congr fun own => exists_congr fun d₁ =>
    and_congr_right fun _ => ?_
  rw [succeeds_addBinder_then]
  constructor
  · rintro ⟨-, binder, hbinder, horder, hapart, hrest⟩
    obtain ⟨d₂, hdelete, key, d₃, hkey, hfresh, hrest⟩ :=
      (succeeds_addPasswordOnDevice_then behind).mp hrest
    obtain ⟨hclient, henough⟩ := succeeds_joining.mp hrest
    refine ⟨binder, hbinder, d₂, hdelete, key, d₃, hkey, ?_, henough⟩
    exact fit_iff.mpr
      ⟨horder, lacks_device.mp hapart, lacks_anchors.mp hfresh, hclient⟩
  · rintro ⟨binder, hbinder, d₂, hdelete, key, d₃, hkey, hfit, henough⟩
    obtain ⟨horder, hapart, hfresh, hclient⟩ := fit_iff.mp hfit
    have hnew : Identifier.new.Lacks own.publicPem := nofun
    refine ⟨hnew, binder, hbinder, horder, lacks_device.mpr hapart, ?_⟩
    refine (succeeds_addPasswordOnDevice_then behind).mpr
      ⟨d₂, hdelete, key, d₃, hkey, lacks_anchors.mpr hfresh, ?_⟩
    exact succeeds_joining.mpr ⟨hclient, henough⟩

/-- What is issued where the store refuses nothing is stored. -/
theorem succeeds_createSteps_of_issueAll (hready : d.view.Ready)
    (hissue : Succeeds (issueAll now account password keys) (.new, d)) :
    Succeeds (createSteps now account password keys) d := by
  obtain ⟨key, ⟨i, d₄⟩, hrun⟩ := hissue
  have hready₄ : d₄.view.Ready := by
    have hsteps := hrun
    rw [issueAll_eq] at hsteps
    obtain ⟨own, s₁, hstep, hrest⟩ := Runs.bind_ok.mp hsteps
    obtain ⟨d₁, hown, rfl⟩ := IssueM.atDesk_iff.mp hstep
    obtain ⟨wrapped, hmakes⟩ : ∃ wrapped,
        Makes IssueM.view (issueRest now account password keys own) (.new, d₁)
          (Custody.passwordChanges account wrapped) := exists_makes_issueRest
    exact (Custody.ready_of_spaceKey hready hown).aside
      ⟨_, hmakes.ok hrest, aside_of_passwordChanges⟩
  have hvalid := Document.validate_iff.mpr (standing_of_issueAll hrun).valid
  obtain ⟨r, d₅, hstore⟩ := Runs.ends (store account i key.wrapped) d₄
  obtain ⟨⟨issued, rfl⟩, -⟩ :=
    sure_store hvalid account key.wrapped hready₄ hstore
  have hwork :
      Runs (IssueM.onIdentifier .new (issueAll now account password keys)) d
        (.ok (key, i)) d₄ := IssueM.onIdentifier_iff.mpr ⟨_, i, hrun, rfl⟩
  exact ⟨issued, d₅, Runs.bind_ok.mpr ⟨(key, i), d₄, hwork, hstore⟩⟩

/-- Where the store refuses nothing, a creation succeeds exactly if the desk and
the client provide what it takes. -/
theorem succeeds_createSteps_iff (hready : d.view.Ready) :
    Succeeds (createSteps now account password keys) d ↔
      ∃ own d₁ pair binder, Runs (Custody.spaceKey account) d (.ok own) d₁ ∧
        d₁.freshPair = .ok pair ∧
        Cbc.blockLength + seedLength ≤ d₁.entropy.length ∧
        BinderKey.binder? keys = some binder ∧
        Fit own.publicPem pair.publicPem binder keys := by
  constructor
  · rintro ⟨issued, d', hrun⟩
    obtain ⟨⟨key, i⟩, d₄, hwork, -⟩ := Runs.bind_ok.mp hrun
    obtain ⟨own, d₁, hown, binder, hbinder, d₂, hdelete, key, d₃, hkey, hfit,
        henough⟩ :=
      succeeds_issueAll_iff.mp ⟨_, _, IssueM.onIdentifier_ok hwork⟩
    have hready₁ := Custody.ready_of_spaceKey hready hown
    obtain ⟨hready₂, v, rfl⟩ := Custody.ready_of_delete hready₁ hdelete
    obtain ⟨hpair, hlong, hentropy, -⟩ :=
      Custody.fresh_of_passwordKey hready₂
        (Custody.lookup_of_delete hdelete) hkey
    refine ⟨own, d₁, key.pair, binder, hown, hpair, ?_, hbinder, hfit⟩
    rw [hentropy, List.length_drop] at henough
    dsimp only at hlong henough
    omega
  · rintro ⟨own, d₁, pair, binder, hown, hpair, henough, hbinder, hfit⟩
    have hready₁ := Custody.ready_of_spaceKey hready hown
    obtain ⟨r₂, d₂, hdelete⟩ := Runs.ends (Custody.delete account) d₁
    obtain ⟨⟨u, rfl⟩, -⟩ :=
      (RecordsM.sure_deleteAny (some (.passwordKey account))).records
        hready₁ hdelete
    obtain ⟨hready₂, v, rfl⟩ := Custody.ready_of_delete hready₁ hdelete
    obtain ⟨r₃, d₃, hkey⟩ :=
      Runs.ends (Custody.passwordKey account password) { d₁ with view := v }
    refine succeeds_createSteps_of_issueAll hready
      (succeeds_issueAll_iff.mpr ?_)
    rcases Custody.passwordKey_cases hready₂
      (Custody.lookup_of_delete hdelete) hkey with
      ⟨fault, hfault, -⟩ | ⟨-, hshort, -⟩
        | ⟨pair', hpair', -, hentropy, -, -, rfl⟩
    · cases hpair.symm.trans hfault
    · dsimp only at hshort
      omega
    · obtain rfl := Except.ok.inj (hpair.symm.trans hpair')
      refine ⟨own, d₁, hown, binder, hbinder, _, hdelete, _, d₃, hkey, hfit, ?_⟩
      rw [hentropy, List.length_drop]
      dsimp only
      omega

/-- Outside a transaction, and where the store refuses nothing, a document is
created for an account exactly if the desk and the client provide what it
takes. -/
theorem succeeds_create_iff (hclosed : d.view.pending = none)
    (hready : d.view.begin.Ready) :
    Succeeds (create now account password keys) d ↔
      ∃ own d₁ pair binder,
        Runs (Custody.spaceKey account) { d with view := d.view.begin }
          (.ok own) d₁ ∧
        d₁.freshPair = .ok pair ∧
        Cbc.blockLength + seedLength ≤ d₁.entropy.length ∧
        BinderKey.binder? keys = some binder ∧
        Fit own.publicPem pair.publicPem binder keys := by
  let b : Desk := { d with view := d.view.begin }
  have hsteps : Succeeds (create now account password keys) d ↔
      Succeeds (createSteps now account password keys) b := by
    constructor
    · rintro ⟨issued, d', hrun⟩
      obtain ⟨d₁, hsteps, -⟩ := (transactionally_of_closed hclosed).mp hrun
      exact ⟨issued, d₁, hsteps⟩
    · rintro ⟨issued, d₁, hsteps⟩
      exact ⟨issued, _,
        (transactionally_of_closed hclosed).mpr ⟨d₁, hsteps, rfl⟩⟩
  exact hsteps.trans (succeeds_createSteps_iff hready)

/-- Storing a document only changes records. -/
theorem store_keepsSupplies (account : String) (i : Identifier)
    (wrapped : Bytes) :
    Keeps Desk.SameSupplies (store account i wrapped) := by
  have hclosed : Closed fun {α : Type} (op : DeskM α) =>
    Keeps Desk.SameSupplies op :=
      .keeps (fun d => ⟨d.view, rfl⟩) fun ⟨_, h₁⟩ ⟨v, h₂⟩ => ⟨v, by rw [h₂, h₁]⟩
  have hrecords {α : Type} (op : RecordsM α) :
      Keeps Desk.SameSupplies (records op) := by
    intro d r d' hrun
    obtain ⟨r₀, v, -, hd', -⟩ := records_iff.mp hrun
    exact ⟨v, hd'⟩
  have hcheck (x : Except DidError Unit) :
      Keeps Desk.SameSupplies (ofDid x) := by
    intro d r d' hrun
    exact ⟨d.view, (ofDid_iff.mp hrun).2⟩
  rw [store_eq]
  refine hclosed.bind (hcheck _) fun _ =>
    hclosed.bind (hrecords _) fun previous => ?_
  refine hclosed.bind (hrecords _) fun _ =>
    hclosed.bind (hrecords _) fun _ => ?_
  exact hclosed.bind (hrecords _) fun _ => hclosed.pure _

/-- A creation uses up the pair that waits for a password key, a first block and
a seed.  Where both pairs wait, none is made. -/
theorem supplies_of_createSteps {issued : IssuedDocument}
    (hready : d.view.Ready)
    (hrun : Runs (createSteps now account password keys) d (.ok issued) d') :
    d'.pool.password = none ∧
      d'.entropy = d.entropy.drop (Cbc.blockLength + seedLength) ∧
      (d.pool.space.isSome = true → d.pool.password.isSome = true →
        d'.source = d.source) := by
  obtain ⟨own, key, binder, policy, d₁, d₂, d₃, hown, hdelete, hkey, -,
      -, hstore⟩ :=
    createSteps_ok hrun
  obtain ⟨hready₂, v, rfl⟩ :=
    Custody.ready_of_delete (Custody.ready_of_spaceKey hready hown) hdelete
  obtain ⟨-, -, hentropy, -, hpool, hmade⟩ :=
    Custody.fresh_of_passwordKey hready₂ (Custody.lookup_of_delete hdelete) hkey
  obtain ⟨hpassword, hkept, hown⟩ := Custody.kept_of_spaceKey hown
  obtain ⟨v', rfl⟩ := store_keepsSupplies _ _ _ hstore
  dsimp only at hentropy hmade ⊢
  refine ⟨hpool, ?_, fun hspace hwaits => ?_⟩
  · rw [hentropy, hkept, List.drop_drop]
  · rw [hmade (hpassword ▸ hwaits), hown hspace]

/-- The pairs that wait are given to an account without keys. -/
theorem succeeds_create_of_waiting {own pair : KeyPair}
    (hclosed : d.view.pending = none) (hready : d.view.begin.Ready)
    (habsent : d.view.committed.get? (Slot.spaceKey account).key = none)
    (hspace : d.pool.space = some own) (hpassword : d.pool.password = some pair)
    (henough : Cbc.blockLength + seedLength ≤ d.entropy.length)
    (hbinder : BinderKey.binder? keys = some binder)
    (hfit : Fit own.publicPem pair.publicPem binder keys) :
    Succeeds (create now account password keys) d := by
  let b : Desk := { d with view := d.view.begin }
  obtain ⟨d₁, hown, hfresh, hentropy⟩ :=
    Custody.waiting_of_spaceKey (d := b) hready habsent hspace hpassword
  rw [← show d₁.entropy = d.entropy from hentropy] at henough
  exact (succeeds_create_iff hclosed hready).mpr
    ⟨own, d₁, pair, binder, hown, hfresh, henough, hbinder, hfit⟩

end Registry

/-! ## A desk where an account may be created -/

/-- A desk without records, where both keys of the next account wait. -/
def Desk.stocked : Desk where
  view := { committed := .empty }
  pool :=
    { space := some ⟨"own private", "own"⟩
      password := some ⟨"password private", "password"⟩ }
  source := { outcome := fun _ => .error .exhausted }
  entropy := List.replicate (Cbc.blockLength + Identifier.seedLength) 0

/-- A key of a client, whose id has some query behind the hash of the key. -/
def BinderKey.client (query : String) : BinderKey where
  id := "AACwxIeqwGjfSPmZ5tE=" ++ query
  keyType := .ed25519
  publicKeyPem := "client"

namespace BinderKey

variable {query : String}

/-- The hash of the client's key. -/
theorem hash_client : (client query).hash = "AACwxIeqwGjfSPmZ5tE=" := by
  show Address.keyHash (Utf8.encode "client") = _
  decide +kernel

/-- A key of a client is in order whatever the query. -/
theorem inOrder_client : (client query).InOrder where
  bound := by
    have hid : (client query).id = "AACwxIeqwGjfSPmZ5tE=" ++ query := rfl
    rw [hash_client, Text.holds_iff, hid, String.toList_append]
    exact (List.prefix_append _ _).isInfix
  readable := nofun

/-- A client's key without a query is not one for its password. -/
theorem kind_client : (client "").credential? ≠ some .passwordOnBinder := by
  decide +kernel

/-- A key alone is the client's own, unless it is for the client's password. -/
theorem binder?_singleton {key : BinderKey}
    (hkind : key.credential? ≠ some .passwordOnBinder) :
    binder? [key] = some key ∧ passwordOnBinder? [key] = none := by
  have hother : (key.credential? == some .passwordOnBinder) = false :=
    beq_false_of_ne hkind
  constructor
  · rw [binder?, List.find?_singleton, List.find?_singleton, bne, hother]
    cases key.credential? == some .binder <;> rfl
  · rw [passwordOnBinder?, List.find?_singleton, hother]
    rfl

end BinderKey

namespace Registry

/-- A desk without records refuses nothing and holds texts only. -/
theorem ready_stocked : Desk.stocked.view.begin.Ready where
  free _ := rfl
  text _ _ _ h := nomatch h

/-- Where both keys of the next account wait at a desk without records, and the
client's key is another one, its document is created. -/
theorem succeeds_create_client {own pair : KeyPair} {query : String}
    (hview : d.view = Desk.stocked.view) (hspace : d.pool.space = some own)
    (hpassword : d.pool.password = some pair)
    (henough : Cbc.blockLength + seedLength ≤ d.entropy.length)
    (hkind : (BinderKey.client query).credential? ≠ some .passwordOnBinder)
    (hdistinct : (keyHashes [(.device, own.publicPem), (.binder, "client"),
      (.passwordOnDevice, pair.publicPem)]).Nodup) :
    Succeeds (create now account password [.client query]) d := by
  obtain ⟨hbinder, hnone⟩ := BinderKey.binder?_singleton hkind
  have hsublist :
      (issuedKeys own.publicPem (.client query) pair.publicPem
        [.client query]).Sublist
          [(.device, own.publicPem), (.binder, "client"),
            (.passwordOnDevice, pair.publicPem)] := by
    rw [issuedKeys_eq, hnone, anchorKeys]
    split
    · exact .cons_cons _ (.cons _ (.refl _))
    · exact .refl _
  have hclosed : d.view.pending = none := by
    rw [hview]
    rfl
  have habsent : d.view.committed.get? (Slot.spaceKey account).key = none := by
    rw [hview]
    rfl
  refine succeeds_create_of_waiting hclosed (hview ▸ ready_stocked) habsent
    hspace hpassword henough hbinder ⟨BinderKey.inOrder_client, ?_, ?_, ?_⟩
  · rw [hnone]
    exact nofun
  · intro hsame
    exact (List.nodup_cons.mp hdistinct).1 (List.mem_cons.mpr (.inl hsame.symm))
  · exact hdistinct.sublist (hsublist.map _)

/-- The keys at this desk have different hashes. -/
theorem distinct_stocked :
    (keyHashes [(.device, "own"), (.binder, "client"),
      (.passwordOnDevice, "password")]).Nodup := by
  decide +kernel

/-- At this desk a document is created for every client whose key is not one for
its password. -/
theorem succeeds_create_stocked {query : String}
    (hkind : (BinderKey.client query).credential? ≠ some .passwordOnBinder) :
    Succeeds (create now account password [.client query]) .stocked :=
  succeeds_create_client rfl rfl rfl (by decide) hkind distinct_stocked

end Registry

end DidVault
