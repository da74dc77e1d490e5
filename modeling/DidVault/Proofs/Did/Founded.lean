import DidVault.Proofs.Did.Identifier

/-!
# What a DID is founded on

The DID of an account names the key that its device published.  Methods are
founded on a key if they have exactly one method of the device, which publishes
that key and is not taken for anything that is ever removed (`Founded`).
Whatever else is issued and removed, the methods stay founded on the same key,
and so the DID stays the same (`Identifier.normalizeDid_did`).
-/

namespace DidVault

/-- The method of a device that publishes a key; no older password key is found
in its id. -/
structure VerificationMethod.Founds (m : VerificationMethod) (pem : String) :
    Prop where
  publishes : m.Publishes .device pem
  lasting : Text.holds Credential.passwordOnDevice.queryPair m.id = false

/-- Exactly one method is of the device, and it publishes a key; no method is
nested deep. -/
structure Founded (methods : List VerificationMethod) (pem : String) :
    Prop where
  device : ∃ m, methods.filter (·.credential? == some .device) = [m] ∧
    m.Founds pem
  shallow : ∀ m ∈ methods, m.Shallow

namespace Founded

variable {methods first rest : List VerificationMethod} {pem : String}

/-- Removing others than the method of the device changes nothing. -/
theorem filter {kept : VerificationMethod → Bool}
    (hfounded : Founded methods pem)
    (hkept : ∀ m, m.Founds pem → kept m = true) :
    Founded (methods.filter kept) pem where
  device := by
    obtain ⟨m, hdevice, hm⟩ := hfounded.device
    have hswap : (methods.filter kept).filter (·.credential? == some .device) =
        (methods.filter (·.credential? == some .device)).filter kept := by
      simp only [List.filter_filter, Bool.and_comm]
    refine ⟨m, ?_, hm⟩
    rw [hswap, hdevice, List.filter_cons_of_pos (hkept m hm), List.filter_nil]
  shallow m hm := hfounded.shallow m (List.mem_filter.mp hm).1

/-- Inserting a method that is not of the device changes nothing, wherever it
stands. -/
theorem insert {m : VerificationMethod} (hfounded : Founded (first ++ rest) pem)
    (hother : m.credential? ≠ some .device) (hshallow : m.Shallow) :
    Founded (first ++ m :: rest) pem where
  device := by
    have hskipped : (m.credential? == some .device) = false :=
      beq_eq_false_iff_ne.mpr hother
    have hsame : (first ++ m :: rest).filter (·.credential? == some .device) =
        (first ++ rest).filter (·.credential? == some .device) := by
      rw [List.filter_append, List.filter_append, List.filter_cons, hskipped]
      rfl
    rw [hsame]
    exact hfounded.device
  shallow b hb := by
    rcases List.mem_append.mp hb with h | h
    · exact hfounded.shallow b (List.mem_append_left _ h)
    · rcases List.mem_cons.mp h with rfl | h
      · exact hshallow
      · exact hfounded.shallow b (List.mem_append_right _ h)

end Founded

namespace Identifier

open Issuing

variable {i : Identifier} {now : Timestamp} {kind : Credential}
  {keyType : KeyType}
variable {pem key : String} {others : List (String × String)}
  {index : Option Nat}
variable {policy : Policy} {seed : Bytes}

/-- Inserting a method of another credential leaves the methods founded. -/
theorem founded_insertMethod {m : VerificationMethod} (index : Option Nat)
    (hfounded : Founded i.methods pem) (hother : m.credential? ≠ some .device)
    (hshallow : m.Shallow) :
    Founded (i.insertMethod m index).methods pem := by
  cases index with
  | none =>
      have hend : Founded (i.methods ++ []) pem := by
        rw [List.append_nil]
        exact hfounded
      exact hend.insert hother hshallow
  | some n =>
      have hsplit : Founded (i.methods.take n ++ i.methods.drop n) pem := by
        rw [List.take_append_drop]
        exact hfounded
      exact hsplit.insert hother hshallow

/-- Removing methods leaves the one of the device if it is none of them. -/
theorem founded_removeWhere {gone : VerificationMethod → Bool}
    (hfounded : Founded i.methods pem)
    (hkept : ∀ m, m.Founds pem → gone m = false) :
    Founded (i.removeWhere gone).1.methods pem := by
  rw [methods_removeWhere]
  refine hfounded.filter fun m hm => ?_
  rw [hkept m hm]
  rfl

/-- Removing the recovery node leaves the methods founded. -/
theorem founded_removeRecovery (hfounded : Founded i.methods pem) :
    Founded (i.removeFragment Names.recoveryFragment).1.methods pem := by
  rw [removeRecovery_eq]
  refine founded_removeWhere hfounded fun m hm => ?_
  rw [beq_eq_false_iff_ne,
    VerificationMethod.reference?_iff.mp hm.publishes.reference]
  decide

/-- Removing the password keys leaves the methods founded, since the device's id
does not hold their mark. -/
theorem founded_removeHolding (hfounded : Founded i.methods pem) :
    Founded (i.removeHolding Credential.passwordOnDevice.queryPair).1.methods
      pem :=
  founded_removeWhere hfounded fun _ hm => hm.lasting

/-- The first key that is published as the one of the device founds a DID. -/
theorem founded_device (now : Timestamp) (pem : String) :
    Founded (Identifier.new.published .device .rsa pem
      (baseQuery now .device) none).methods pem := by
  have hpublishes : (issuedMethod now .device .rsa pem
      (Names.reference Identifier.new.fragment) []).Publishes .device pem :=
    publishes_issuedMethod now .device .rsa pem _ (fun _ h => nomatch h)
  rw [baseQuery_eq, methods_published]
  refine ⟨⟨_, ?_, hpublishes, ?_⟩, ?_⟩
  · show List.filter _ [_] = _
    rw [List.filter_cons_of_pos (by rw [hpublishes.credential]; rfl),
      List.filter_nil]
  · rw [Bool.eq_false_iff]
    intro h
    rcases (holds_issuedId now .device pem []).mp h with h | ⟨p, hp, -⟩
    · cases h
    · cases hp
  · intro m hm
    rw [List.mem_singleton.mp hm]
    exact VerificationMethod.shallow_publishing ..

/-- Publishing another kind of key leaves the method of the device alone. -/
theorem founded_published (hfounded : Founded i.methods pem)
    (hkind : kind ≠ .device)
    (hothers : ∀ p ∈ others, '#' ∉ p.1.toList ∧ '#' ∉ p.2.toList) :
    Founded (i.published kind keyType key
      (queryWith now kind others) index).methods pem := by
  have hpublishes :=
    publishes_issuedMethod now kind keyType key
      (Names.reference i.fragment) hothers
  have hother : (issuedMethod now kind keyType key (Names.reference i.fragment)
      others).credential? ≠ some .device := by
    rw [hpublishes.credential]
    intro h
    exact hkind (Option.some.inj h)
  rw [published_eq]
  exact founded_insertMethod index hfounded hother
    (VerificationMethod.shallow_publishing ..)

/-- Publishing a key that was handed in leaves the methods founded, if it is not
the device's. -/
theorem founded_withExternal (key : BinderKey)
    (hfounded : Founded i.methods pem) (hkind : kind ≠ .device) :
    Founded (withExternal now kind key i).methods pem := by
  rw [withExternal, forwardedQuery_eq]
  exact founded_published hfounded hkind hash_not_mem_forwarded

/-- Publishing a new password key leaves the methods founded. -/
theorem founded_withPasswordOnDevice (hfounded : Founded i.methods pem) :
    Founded (withPasswordOnDevice now key i).methods pem := by
  rw [withPasswordOnDevice, baseQuery_eq]
  exact founded_published (founded_removeHolding hfounded) nofun
    (fun _ h => nomatch h)

/-- The node of a policy is no method of the device. -/
theorem founded_installPolicy {anchors coSigners : List String} (seed : Bytes)
    (hfounded : Founded i.methods pem)
    (hpolicy : Policy.compose anchors coSigners = .ok policy) :
    Founded (i.installPolicy policy seed).methods pem := by
  rw [Policy.compose_ok hpolicy]
  refine founded_insertMethod none (founded_removeRecovery hfounded) ?_ ?_
  · rw [(holds_node _ seed _).credential]
    exact nofun
  · refine VerificationMethod.shallow_holding _ _ fun p hp => ?_
    obtain ⟨anchor, -, rfl⟩ := List.mem_map.mp hp
    exact Policy.depth_clause_le _ anchor

/-- The key that the methods are founded on is the one that the DID names. -/
theorem derivedId_of_founded (hfounded : Founded i.methods pem) :
    i.derivedId = Address.spaceId (Utf8.encode pem) := by
  obtain ⟨m, hdevice, hm⟩ := hfounded.device
  have hsource : i.sourcePem? = some pem := by
    rw [sourcePem?, methodsOf, hdevice, List.findSome?_cons, hm.publishes.key]
    rfl
  rw [derivedId, hsource]

/-- The method-specific identifier is derived from the methods alone. -/
theorem derivedId_congr {j : Identifier} (hmethods : i.methods = j.methods) :
    i.derivedId = j.derivedId := by
  rw [derivedId, derivedId, sourcePem?, sourcePem?, methodsOf,
    methodsOf, hmethods]

/-- The identifier of a document has the parts of its DID, whose method-specific
identifier is the one that the methods give, and all else of the document. -/
theorem ofDocument_iff {d : Document} :
    ofDocument d = .ok i ↔ DidUrl.parse d.id = .ok i.url ∧
      i.derivedId = i.url.id ∧
      i.context = d.context ∧ i.controller = d.controller ∧
      i.methods = d.methods ∧
      i.relationships = d.relationships := by
  unfold ofDocument Identifier.parse
  cases hurl : DidUrl.parse d.id with
  | error e => exact ⟨nofun, fun h => nomatch h.1⟩
  | ok url =>
      dsimp only
      split
      · next hsame =>
          constructor
          · rintro ⟨⟩
            refine ⟨?_, rfl, rfl, rfl, rfl, rfl⟩
            rw [refresh, hsame]
          · rintro ⟨hparts, -, hrest⟩
            obtain ⟨parts, context, controller, methods, relationships⟩ := i
            obtain rfl : url = parts := Except.ok.inj hparts
            obtain ⟨rfl, rfl, rfl, rfl⟩ := hrest
            rw [refresh, hsame]
      · next hother =>
          refine ⟨nofun, fun h => absurd ?_ hother⟩
          obtain ⟨hparts, hsame, -, -, hmethods, -⟩ := h
          obtain rfl : url = i.url := Except.ok.inj hparts
          rw [← hsame]
          exact derivedId_congr hmethods.symm

/-- The methods of a document are those of its identifier. -/
theorem methods_ofDocument {d : Document} (hi : ofDocument d = .ok i) :
    i.methods = d.methods := by
  obtain ⟨-, -, -, -, hmethods, -⟩ := ofDocument_iff.mp hi
  exact hmethods

end Identifier

/-- The DID that is founded on a key. -/
def didOfKey (pem : String) : String :=
  Names.spaceStart ++ Address.spaceId (Utf8.encode pem)

/-- The records drop the fragment of a DID. -/
theorem normalizeDid_reference (pem fragment : String) :
    normalizeDid (didOfKey pem ++ Names.reference fragment) = didOfKey pem := by
  have hplain : ∀ c ∈ (didOfKey pem).toList, (c != '?' && c != '#') = true := by
    obtain ⟨cs, hid, hcs⟩ := Address.spaceId_eq (Utf8.encode pem)
    have halphabet : ∀ c ∈ Base58.alphabet, (c != '?' && c != '#') = true := by
      simpa only [List.all_eq_true] using
        (by decide : Base58.alphabet.all (fun c => c != '?' && c != '#') = true)
    intro c hc
    rw [didOfKey, String.toList_append, hid] at hc
    rcases List.mem_append.mp hc with h | h
    · have hstart : ∀ c ∈ Names.spaceStart.toList,
          (c != '?' && c != '#') = true := by
        simpa only [List.all_eq_true] using
          (by
            decide : Names.spaceStart.toList.all
              (fun c => c != '?' && c != '#') = true)
      exact hstart c h
    · rcases List.mem_cons.mp h with rfl | h
      · rfl
      · exact halphabet c (hcs c h)
  rw [normalizeDid, String.toList_append, List.takeWhile_append_of_pos hplain,
    Names.reference, String.toList_append]
  show String.ofList
      ((didOfKey pem).toList ++ List.takeWhile _ ('#' :: fragment.toList)) = _
  rw [List.takeWhile_cons_of_neg (by decide), List.append_nil,
    String.ofList_toList]

/-- The DID of a new document names the key that its methods are founded on. -/
theorem Identifier.did_of_founded {i : Identifier} {pem : String}
    {policy : Policy} {seed : Bytes}
    (hfounded : Founded (i.installPolicy policy seed).methods pem) :
    (i.installPolicy policy seed).did =
      didOfKey pem ++ Names.reference i.fragment := by
  have hid : (i.installPolicy policy seed).url.id =
      (i.installPolicy policy seed).derivedId := rfl
  rw [did, hid, derivedId_of_founded hfounded]
  rfl

/-- Without its fragment this is the DID under which the document is stored. -/
theorem Identifier.normalizeDid_did {i : Identifier} {pem : String}
    {policy : Policy} {seed : Bytes}
    (hfounded : Founded (i.installPolicy policy seed).methods pem) :
    normalizeDid (i.installPolicy policy seed).did = didOfKey pem := by
  rw [did_of_founded hfounded]
  exact normalizeDid_reference pem _

end DidVault
