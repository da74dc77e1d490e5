import DidVault.Proofs.Did.Document.Validity
import DidVault.Proofs.Did.Founded
import DidVault.Proofs.Did.KeyUrl
import DidVault.Proofs.Did.Policy.Meaning
import DidVault.Proofs.Did.Sound

/-!
# Documents that stand

The methods of an account's document are arranged: first the keys that a
recovery anchors on, then the password key of the device, then keys that only
join in (`Arrangement`), and behind them the node of the recovery policy, which
asks for these keys (`Identifier.Standing`).

From arranged keys a policy can always be composed
(`Arrangement.exists_composes`).  A document that stands is valid, and it is
read back to an identifier that stands again (`Standing.reread`).
-/

namespace DidVault

open Identifier

/-- The method of a key that a recovery anchors on; it is not taken for a
password key. -/
structure VerificationMethod.Anchors (m : VerificationMethod) : Prop where
  publishes : ∃ kind ∈ [Credential.device, .binder], ∃ pem, m.Publishes kind pem
  lasting : Text.holds Credential.passwordOnDevice.queryPair m.id = false

/-- Published keys in the order in which they are issued, that of the device
among the anchors. -/
structure Arrangement where
  anchors : List VerificationMethod
  secret : VerificationMethod
  behind : List VerificationMethod
  anchoring : ∀ m ∈ anchors, m.Anchors
  device : ∃ m ∈ anchors, ∃ pem, m.Publishes .device pem
  opening : ∃ pem, secret.Publishes .passwordOnDevice pem
  replaced : Text.holds Credential.passwordOnDevice.queryPair secret.id = true
  joining : ∀ m ∈ behind, ∃ pem, m.Publishes .passwordOnBinder pem

/-- The methods of arranged keys. -/
def Arrangement.keys (a : Arrangement) : List VerificationMethod :=
  a.anchors ++ a.secret :: a.behind

namespace VerificationMethod

variable {m : VerificationMethod} {kind : Credential} {pem : String}

/-- A method that publishes a credential has the credential's fragment. -/
theorem Publishes.fragment (h : m.Publishes kind pem) :
    m.fragment? = some kind.fragment :=
  reference?_iff.mp h.reference

/-- A method that publishes a credential is not the recovery node. -/
theorem Publishes.ne_recovery (h : m.Publishes kind pem) :
    (m.fragment? == some Names.recoveryFragment) = false := by
  rw [h.fragment]
  cases kind <;> decide

/-- A published key is found by its reference. -/
theorem Publishes.found (h : m.Publishes kind pem) :
    m.fragment? =
      some (Text.withoutLeading '#' (Names.reference kind.fragment)) := by
  rw [h.fragment]
  cases kind <;> decide

/-- A method that publishes a key has the hash of it. -/
theorem Publishes.hash (h : m.Publishes kind pem) :
    m.materialHash? = some (Address.keyHash (Utf8.encode pem)) := by
  rw [materialHash?, material?, h.key]
  rfl

/-- A method that names its key is regular, if it has that key and no
conditions. -/
theorem NamesKey.regular (hnamed : m.NamesKey)
    (hkey : m.publicKeyPem = some pem) (hunconditional : m.policy? = none) :
    m.Regular where
  named := by
    have hstart := hnamed pem hkey
    rw [Text.beginsWith, List.isPrefixOf_iff_prefix, String.toList_append]
      at hstart
    rw [Text.beginsWith, List.isPrefixOf_iff_prefix]
    exact (List.prefix_append _ _).trans hstart
  single := by
    unfold policy? at hunconditional
    cases hand : m.conditionAnd <;> simp_all
  present := .inl (by rw [materialHash?, material?, hkey]; rfl)

/-- A method that publishes a key and names it is regular. -/
theorem Publishes.regular (h : m.Publishes kind pem) (hnamed : m.NamesKey) :
    m.Regular :=
  hnamed.regular h.key h.unconditional

/-- The recovery node has conditions in place of a key, so it is regular too. -/
theorem regular_node (seed : Bytes) (controller : String)
    (children : List Policy) :
    (holding (policyId seed) controller (.any children)).Regular where
  named := by
    rw [Text.beginsWith, List.isPrefixOf_iff_prefix]
    show _ <+: (policyId seed).toList
    rw [policyId, String.append_assoc, String.toList_append]
    exact List.prefix_append _ _
  single h := nomatch h.1
  present := .inr rfl

end VerificationMethod

namespace Policy

variable {anchors others : List String} {policy : Policy} {r : String}

/-- A policy refers to what it was composed of. -/
theorem mem_of_mem_references (hpolicy : compose anchors others = .ok policy)
    (hr : r ∈ policy.references) :
    r ∈ anchors ++ others := by
  rw [compose_ok hpolicy, references] at hr
  obtain ⟨p, hp, hr⟩ := mem_listReferences.mp hr
  obtain ⟨a, ha, rfl⟩ := List.mem_map.mp hp
  rw [clause, references] at hr
  obtain ⟨q, hq, hr⟩ := mem_listReferences.mp hr
  rcases List.mem_cons.mp hq with rfl | hq
  · rw [references, List.mem_singleton] at hr
    rw [hr]
    exact List.mem_append_left _ (mem_distinct.mp ha)
  · rw [List.mem_singleton.mp hq, references] at hr
    obtain ⟨k, hk, hr⟩ := mem_listReferences.mp hr
    obtain ⟨other, hother, rfl⟩ := List.mem_map.mp hk
    rw [references, List.mem_singleton] at hr
    rw [hr]
    exact mem_distinct.mp (List.mem_filter.mp hother).1

end Policy

/-- The references of the methods of several kinds. -/
theorem Identifier.mem_referencesOf {i : Identifier} {kinds : List Credential}
    {r : String} :
    r ∈ i.referencesOf kinds ↔ ∃ kind ∈ kinds, ∃ m ∈ i.methods,
      m.credential? = some kind ∧ m.reference? = some r := by
  simp only [referencesOf, methodsOf, List.mem_filterMap, List.mem_flatMap,
    List.mem_filter, beq_iff_eq]
  constructor
  · rintro ⟨m, ⟨kind, hkind, hm, hcredential⟩, hreference⟩
    exact ⟨kind, hkind, m, hm, hcredential, hreference⟩
  · rintro ⟨kind, hkind, m, hm, hcredential, hreference⟩
    exact ⟨m, ⟨kind, hkind, hm, hcredential⟩, hreference⟩

namespace Arrangement

variable {a : Arrangement} {m : VerificationMethod} {i : Identifier}
  {policy : Policy}

/-- Every one of the keys is published as a credential. -/
theorem publishes_of_mem (hm : m ∈ a.keys) :
    ∃ kind pem, m.Publishes kind pem := by
  rcases List.mem_append.mp hm with h | h
  · obtain ⟨kind, -, pem, hpublishes⟩ := (a.anchoring m h).publishes
    exact ⟨kind, pem, hpublishes⟩
  · rcases List.mem_cons.mp h with rfl | h
    · exact ⟨_, a.opening⟩
    · exact ⟨_, a.joining m h⟩

/-- The anchors are among the keys. -/
theorem mem_keys_of_anchor (hm : m ∈ a.anchors) : m ∈ a.keys :=
  List.mem_append_left _ hm

/-- The password key is among the keys. -/
theorem secret_mem_keys (a : Arrangement) : a.secret ∈ a.keys :=
  List.mem_append_right _ List.mem_cons_self

/-- None of the keys is the node of a policy. -/
theorem filter_recovery (a : Arrangement) :
    a.keys.filter (fun m => !(m.fragment? == some Names.recoveryFragment)) =
      a.keys := by
  refine List.filter_eq_self.mpr fun m hm => ?_
  obtain ⟨kind, pem, hpublishes⟩ := publishes_of_mem hm
  rw [hpublishes.ne_recovery]
  rfl

/-- The password key of the device stands behind the anchors. -/
theorem findIdx?_secret (a : Arrangement) :
    a.keys.findIdx? (·.credential? == some .passwordOnDevice) =
      some a.anchors.length := by
  have hnone :
      a.anchors.findIdx? (·.credential? == some .passwordOnDevice) = none := by
    refine List.findIdx?_eq_none_iff.mpr fun m hm => ?_
    obtain ⟨kind, hkind, pem, hpublishes⟩ := (a.anchoring m hm).publishes
    rw [hpublishes.credential]
    revert hkind
    cases kind <;> decide
  obtain ⟨pem, hpublishes⟩ := a.opening
  rw [keys, List.findIdx?_append, hnone, List.findIdx?_cons,
    hpublishes.credential, if_pos (beq_self_eq_true _), Option.map_some,
    Nat.zero_add, Option.none_or]

/-- With the password key those keys are removed that are taken for it. -/
theorem filter_replaced (a : Arrangement) :
    a.keys.filter
      (fun m => !Text.holds Credential.passwordOnDevice.queryPair m.id) =
        a.anchors ++ a.behind.filter fun m =>
          !Text.holds Credential.passwordOnDevice.queryPair m.id := by
  have hanchors : a.anchors.filter
      (fun m => !Text.holds Credential.passwordOnDevice.queryPair m.id) =
        a.anchors := by
    refine List.filter_eq_self.mpr fun m hm => ?_
    rw [(a.anchoring m hm).lasting]
    rfl
  rw [keys, List.filter_append, hanchors, List.filter_cons, a.replaced]
  rfl

/-- Another password key in the place of the one before. -/
def replace (a : Arrangement) (m : VerificationMethod)
    (hopening : ∃ pem, m.Publishes .passwordOnDevice pem)
    (hreplaced : Text.holds Credential.passwordOnDevice.queryPair m.id = true) :
    Arrangement where
  anchors := a.anchors
  secret := m
  behind := a.behind.filter fun m =>
    !Text.holds Credential.passwordOnDevice.queryPair m.id
  anchoring := a.anchoring
  device := a.device
  opening := hopening
  replaced := hreplaced
  joining b hb := a.joining b (List.mem_filter.mp hb).1

/-- What anchors and joining keys refer to is among the keys. -/
theorem mem_keys_of_reference {kinds : List Credential} {r : String}
    (hmethods : i.methods = a.keys) (hr : r ∈ i.referencesOf kinds) :
    ∃ m ∈ a.keys, ∃ kind pem, m.Publishes kind pem ∧
      r = Names.reference kind.fragment := by
  obtain ⟨kind, -, m, hm, -, hreference⟩ := mem_referencesOf.mp hr
  rw [hmethods] at hm
  obtain ⟨kind, pem, hpublishes⟩ := publishes_of_mem hm
  exact ⟨m, hm, kind, pem, hpublishes,
    Option.some.inj (hreference.symm.trans hpublishes.reference)⟩

/-- What a composed policy refers to are keys of the arrangement. -/
theorem mem_keys_of_composed {r : String} (hmethods : i.methods = a.keys)
    (hcompose : Policy.compose i.anchorReferences i.coSignerReferences =
      .ok policy)
    (hr : r ∈ policy.references) :
    ∃ m ∈ a.keys, ∃ kind pem, m.Publishes kind pem ∧
      r = Names.reference kind.fragment := by
  rcases List.mem_append.mp (Policy.mem_of_mem_references hcompose hr) with
    h | h
  · exact mem_keys_of_reference hmethods h
  · exact mem_keys_of_reference hmethods h

/-- The device is an anchor, and the password key joins in: they are enough for
a policy. -/
theorem exists_composes (hmethods : i.methods = a.keys) :
    ∃ policy, i.Composes policy := by
  have hdevice : Names.reference Credential.device.fragment ∈
      i.anchorReferences := by
    obtain ⟨m, hm, pem, hpublishes⟩ := a.device
    refine mem_referencesOf.mpr
      ⟨.device, List.mem_cons_self, m, ?_, hpublishes.credential,
        hpublishes.reference⟩
    rw [hmethods]
    exact mem_keys_of_anchor hm
  have hsecret : Names.reference Credential.passwordOnDevice.fragment ∈
      i.coSignerReferences := by
    obtain ⟨pem, hpublishes⟩ := a.opening
    refine mem_referencesOf.mpr
      ⟨.passwordOnDevice, List.mem_cons_self, a.secret, ?_,
        hpublishes.credential, hpublishes.reference⟩
    rw [hmethods]
    exact a.secret_mem_keys
  obtain ⟨policy, hcompose⟩ : ∃ policy,
      Policy.compose i.anchorReferences i.coSignerReferences = .ok policy := by
    refine Policy.exists_compose_iff.mpr ⟨List.ne_nil_of_mem hdevice, _,
      List.mem_append_left _ hdevice, _, List.mem_append_right _ hsecret, ?_⟩
    decide
  refine ⟨policy, recoveryPolicy_iff.mpr ⟨hcompose, fun r hr => ?_⟩⟩
  obtain ⟨m, hm, kind, pem, hpublishes, rfl⟩ :=
    mem_keys_of_composed hmethods hcompose hr
  rw [hmethods]
  exact ⟨m, hm, hpublishes.found⟩

end Arrangement

/-- The methods are arranged keys and behind them the node of a policy that asks
for these keys. -/
def Identifier.Arranged (i : Identifier) (a : Arrangement) : Prop :=
  ∃ (seed : Bytes) (controller : String) (children : List Policy),
    i.methods = a.keys ++
      [.holding (policyId seed) controller (.any children)] ∧
    ∀ r ∈ Policy.listReferences children, ∃ m ∈ a.keys, m.reference? = some r

/-- A sound identifier of an account, with arranged keys and a policy over them
at the end, which alone is for invocations. -/
structure Identifier.Standing (i : Identifier) : Prop where
  sound : i.Sound
  refers : i.Refers
  fragment : i.fragment = Names.defaultFragment
  founded : ∃ pem, Founded i.methods pem
  invocations : i.relationships.capabilityInvocation =
    [Names.reference Names.recoveryFragment]
  arranged : ∃ a, i.Arranged a

namespace Identifier

variable {a : Arrangement} {i : Identifier} {policy : Policy} {seed : Bytes}
  {pem : String}

/-- A policy is installed behind the keys that it is composed of. -/
theorem arranged_installPolicy (hmethods : i.methods = a.keys)
    (hpolicy : i.Composes policy) :
    (i.installPolicy policy seed).Arranged a := by
  have hcompose := recoveryPolicy_ok hpolicy
  obtain ⟨children, rfl⟩ : ∃ children, policy = .any children :=
    ⟨_, Policy.compose_ok hcompose⟩
  refine ⟨seed, Names.reference i.fragment, children, ?_, fun r hr => ?_⟩
  · rw [methods_installPolicy, hmethods, a.filter_recovery]
  · obtain ⟨m, hm, kind, pem, hpublishes, rfl⟩ :=
      Arrangement.mem_keys_of_composed hmethods hcompose hr
    exact ⟨m, hm, hpublishes.reference⟩

/-- Where a policy is installed over arranged keys, the document stands. -/
theorem standing_installPolicy (hmethods : i.methods = a.keys)
    (hpolicy : i.Composes policy) (hsound : (i.installPolicy policy seed).Sound)
    (hrefers : (i.installPolicy policy seed).Refers)
    (hfragment : i.fragment = Names.defaultFragment)
    (hfounded : Founded i.methods pem)
    (hinvocations : i.relationships.capabilityInvocation = []) :
    (i.installPolicy policy seed).Standing where
  sound := hsound
  refers := hrefers
  fragment := hfragment
  founded :=
    ⟨pem, founded_installPolicy seed hfounded (recoveryPolicy_ok hpolicy)⟩
  invocations := invocations_installPolicy policy seed hinvocations
  arranged := ⟨a, arranged_installPolicy hmethods hpolicy⟩

/-- The node of a policy has the fragment of recovery. -/
theorem fragment?_node (children : List Policy) (seed : Bytes)
    (controller : String) :
    (VerificationMethod.holding (policyId seed) controller
      (.any children)).fragment? = some Names.recoveryFragment :=
  VerificationMethod.reference?_iff.mp
    (holds_node children seed controller).reference

/-- Without the node of the policy the keys are left. -/
theorem methods_removeRecovery (harranged : i.Arranged a) :
    (i.removeFragment Names.recoveryFragment).1.methods = a.keys := by
  obtain ⟨seed, controller, children, hmethods, -⟩ := harranged
  rw [removeRecovery_eq, methods_removeWhere, hmethods, List.filter_append,
    a.filter_recovery, List.filter_cons_of_neg]
  · exact List.append_nil _
  · rw [fragment?_node]
    decide

/-- A DID begins with the method's name. -/
theorem beginsWith_did (i : Identifier) :
    Text.beginsWith Names.spaceStart i.did = true := by
  rw [Text.beginsWith, List.isPrefixOf_iff_prefix, did, String.append_assoc,
    String.toList_append]
  exact List.prefix_append _ _

namespace Standing

/-- The references to the node of the policy are removed with it. -/
theorem invocations_removeRecovery (h : i.Standing) :
    (i.removeFragment
      Names.recoveryFragment).1.relationships.capabilityInvocation = [] := by
  refine (h.refers.get_removeRecovery .capabilityInvocation).trans ?_
  show i.relationships.capabilityInvocation.filter _ = []
  rw [h.invocations]
  decide

/-- The DID names the key that the methods are founded on. -/
theorem id_eq (h : i.Standing) (hfounded : Founded i.methods pem) :
    i.url.id = Address.spaceId (Utf8.encode pem) := by
  rw [h.sound.id, ← derivedId_eq, derivedId_of_founded hfounded]

/-- A standing identifier's DID is made of the key that founds it and the
default fragment. -/
theorem did_eq (h : i.Standing) (hfounded : Founded i.methods pem) :
    i.did = didOfKey pem ++ Names.reference Names.defaultFragment := by
  rw [did, h.id_eq hfounded, h.fragment]
  rfl

/-- A document that stands is valid. -/
theorem valid (h : i.Standing) : i.toDocument.Valid := by
  obtain ⟨a, seed, controller, children, hmethods, hchildren⟩ := h.arranged
  have hreference {m : VerificationMethod} {r : String} (hm : m ∈ i.methods)
      (hr : m.reference? = some r) : r ∈ i.toDocument.methodReferences :=
    List.mem_filterMap.mpr ⟨m, hm, hr⟩
  have hkey {m : VerificationMethod} (hm : m ∈ a.keys) : m ∈ i.methods := by
    rw [hmethods]
    exact List.mem_append_left _ hm
  have hcases {m : VerificationMethod} (hm : m ∈ i.toDocument.methods) :
      m ∈ a.keys ∨ m = .holding (policyId seed) controller (.any children) := by
    change m ∈ i.methods at hm
    rw [hmethods] at hm
    exact (List.mem_append.mp hm).imp_right List.mem_singleton.mp
  constructor
  · exact beginsWith_did i
  · exact List.ne_nil_of_mem (hkey a.secret_mem_keys)
  · intro m hm
    rcases hcases hm with h' | rfl
    · obtain ⟨kind, pem, hpublishes⟩ := Arrangement.publishes_of_mem h'
      exact hpublishes.regular (h.sound.named m hm)
    · exact VerificationMethod.regular_node ..
  · exact h.sound.distinct
  · intro r reference hr
    obtain ⟨m, hm, hsame⟩ := h.refers r reference hr
    exact hreference hm hsame
  · intro m hm policy hpolicy r hr
    rcases hcases hm with h' | rfl
    · obtain ⟨kind, pem, hpublishes⟩ := Arrangement.publishes_of_mem h'
      rw [hpublishes.unconditional] at hpolicy
      cases hpolicy
    · obtain rfl : Policy.any children = policy := Option.some.inj hpolicy
      obtain ⟨b, hb, hsame⟩ := hchildren r hr
      exact hreference (hkey hb) hsame

end Standing

end Identifier

/-- None of the marks of a DID URL is a symbol. -/
theorem Base58.not_mem_marks {c : Char} (hc : c ∈ Base58.alphabet) :
    c ∉ ['%', ';', '/', '?', '#'] := by
  have hall : Base58.alphabet.all
      (fun c => decide (c ∉ ['%', ';', '/', '?', '#'])) = true := by
    decide
  exact of_decide_eq_true (List.all_eq_true.mp hall c hc)

/-- The DID of an account has none of the marks that divide a DID URL. -/
theorem wellFormed_didOfKey (pem fragment : String) :
    DidUrl.WellFormed
      ⟨Names.spaceMethod, Address.spaceId (Utf8.encode pem), [], [], none,
        some fragment⟩ := by
  obtain ⟨cs, hid, halphabet⟩ := Address.spaceId_eq (Utf8.encode pem)
  have hfree : ∀ c ∈ ['%', ';', '/', '?', '#'],
      c ∉ (Address.spaceId (Utf8.encode pem)).toList := by
    intro c hc hmem
    refine Base58.not_mem_marks ?_ hc
    rw [hid] at hmem
    rcases List.mem_cons.mp hmem with rfl | hmem
    · exact List.mem_cons_self
    · exact halphabet c hmem
  constructor
  · exact show Names.spaceMethod ≠ "" by decide
  · exact show ':' ∉ Names.spaceMethod.toList by simp [Names.spaceMethod]
  · intro h
    rw [show Address.spaceId (Utf8.encode pem) = "" from h] at hid
    cases hid
  · rw [hid]
    exact show some '1' ≠ some ':' by decide
  · have hother : ∀ c ∈ [';', '/', '?', '#'],
        c ∉ (Address.spaceId (Utf8.encode pem)).toList :=
      fun c hc => hfree c (List.mem_cons_of_mem _ hc)
    exact DidUrl.unbroken_of_plain (hfree '%' List.mem_cons_self) hother
  · nofun
  · exact DidUrl.soundPath_nil
  · nofun

/-- The DID of an account is read part by part. -/
theorem parse_didOfKey (pem fragment : String) :
    DidUrl.parse (didOfKey pem ++ Names.reference fragment) =
      .ok ⟨Names.spaceMethod, Address.spaceId (Utf8.encode pem), [], [], none,
        some fragment⟩ := by
  refine DidUrl.parse_iff.mpr ⟨?_, wellFormed_didOfKey pem fragment⟩
  simp [DidUrl.render, DidUrl.renderSuffix, didOfKey, Names.spaceStart,
    Names.reference, String.append_assoc]

namespace Identifier

variable {i : Identifier}

/-- The identifier with the fragment of its DID written out, and nothing else of
a text that it was read from. -/
def plain (i : Identifier) : Identifier :=
  { i with url := ⟨Names.spaceMethod, i.url.id, [], [], none, some i.fragment⟩ }

/-- Where a method has a key in PEM, there is one to derive the DID from. -/
theorem exists_sourcePem
    (hkey : ∃ m ∈ i.methods, m.publicKeyPem.isSome = true) :
    ∃ pem, i.sourcePem? = some pem := by
  obtain ⟨m, hm, hpem⟩ := hkey
  rw [sourcePem?]
  cases (i.methodsOf .device).findSome? (·.publicKeyPem) with
  | some pem => exact ⟨pem, rfl⟩
  | none =>
      exact Option.isSome_iff_exists.mp
        (List.findSome?_isSome_iff.mpr ⟨m, hm, hpem⟩)

/-- From its document an identifier is made again, with its fragment written
out. -/
theorem ofDocument_toDocument (hsound : i.Sound)
    (hkey : ∃ m ∈ i.methods, m.publicKeyPem.isSome = true) :
    ofDocument i.toDocument = .ok i.plain := by
  have hderived : i.plain.derivedId = i.url.id := by
    rw [hsound.id, ← derivedId_eq]
    rfl
  refine ofDocument_iff.mpr ⟨?_, hderived, rfl, rfl, rfl, rfl⟩
  obtain ⟨pem, hsource⟩ := exists_sourcePem hkey
  have hid : i.url.id = Address.spaceId (Utf8.encode pem) := by
    rw [hsound.id, ← derivedId_eq, derivedId, hsource]
  show DidUrl.parse
      (Names.spaceStart ++ i.url.id ++ Names.reference i.fragment) =
    .ok ⟨Names.spaceMethod, i.url.id, [], [], none, some i.fragment⟩
  rw [hid]
  exact parse_didOfKey pem i.fragment

/-- What is stored of a document that stands is read back, and the identifier
that is made of it stands as before. -/
theorem Standing.reread (h : i.Standing) :
    Document.parse i.toDocument.canonicalBytes = .ok i.toDocument ∧
      ∃ j, ofDocument i.toDocument = .ok j ∧ j.Standing ∧
      j.toDocument = i.toDocument := by
  obtain ⟨pem, hfounded⟩ := h.founded
  have hkey : ∃ m ∈ i.methods, m.publicKeyPem.isSome = true := by
    obtain ⟨m, hdevice, hm⟩ := hfounded.device
    have hmem : m ∈ i.methods.filter (·.credential? == some .device) := by
      rw [hdevice]
      exact List.mem_singleton_self m
    exact ⟨m, (List.mem_filter.mp hmem).1, by rw [hm.publishes.key]; rfl⟩
  refine ⟨Document.parse_of_shallow hfounded.shallow, i.plain,
    ofDocument_toDocument h.sound hkey, ?_, rfl⟩
  exact ⟨⟨h.sound.id, h.sound.distinct, h.sound.named, h.sound.once⟩, h.refers,
    h.fragment, h.founded, h.invocations, h.arranged⟩

end Identifier

end DidVault
