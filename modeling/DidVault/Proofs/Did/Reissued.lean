import DidVault.Proofs.Did.Standing

/-!
# Documents with a new password key

A new password key takes the place of the one before, a new policy is composed,
and everything that a recovery anchors on stays where it is
(`Document.Reissued`).  This is what becomes of a document that stands when its
password key is replaced (`Identifier.reissued_of_arranged`).
-/

namespace DidVault

/-- The only method of a kind of credential is `m`, and its place is `n`. -/
def Document.Only (d : Document) (kind : Credential) (n : Nat)
    (m : VerificationMethod) : Prop :=
  ∀ k b, d.methods[k]? = some b ∧ b.credential? = some kind ↔ k = n ∧ b = m

/-- The second document has the DID of the first, the same methods of the device
and of the client at the same places, and its only password key of the device in
the place of the one before.  Behind the keys stands the node of a policy that
refers to keys among them, and it alone is for invocations. -/
structure Document.Reissued (before after : Document) (pem : String) :
    Prop where
  subject : after.id = before.id
  device : ∃ m ∈ before.methods, m.credential? = some .device
  anchors : ∀ kind ∈ [Credential.device, .binder],
    ∀ (n : Nat) (m : VerificationMethod), m.credential? = some kind →
    (after.methods[n]? = some m ↔ before.methods[n]? = some m)
  secret : ∃ n old new front, before.Only .passwordOnDevice n old ∧
    after.Only .passwordOnDevice n new ∧ new.Publishes .passwordOnDevice pem ∧
    new.id = front ++ "#key-2"
  node : ∃ keys node policy, after.methods = keys ++ [node] ∧
    node.Holds policy ∧
    ∀ r ∈ policy.references, ∃ m ∈ keys, ∃ key, m.reference? = some r ∧
      m.publicKeyPem = some key
  invocations : after.relationships.capabilityInvocation = ["#multisig-0"]

/-- The reference to a method is what its id ends with. -/
theorem VerificationMethod.exists_id_eq {m : VerificationMethod}
    {reference : String} (hreference : m.reference? = some reference) :
    ∃ front, m.id = front ++ reference := by
  obtain ⟨fragment, hfragment, rfl⟩ := Option.map_eq_some_iff.mp hreference
  change (Text.cut '#' m.id).2 = some fragment at hfragment
  rcases Text.cutChars_cases '#' m.id.toList with
    hnone | ⟨front, behind, hid, hfront⟩
  · rw [← String.ofList_toList (s := m.id), Text.cut_of_not_mem hnone]
      at hfragment
    cases hfragment
  · rw [← String.ofList_toList (s := m.id), hid, Text.cut_append hfront]
      at hfragment
    obtain rfl : String.ofList behind = fragment := Option.some.inj hfragment
    refine ⟨String.ofList front, String.toList_inj.mp ?_⟩
    rw [hid, Names.reference]
    simp

namespace Identifier

variable {i j : Identifier} {a : Arrangement} {m : VerificationMethod}
  {kind : Credential}
variable {pem : String} {n : Nat}

/-- Where no method behind the first ones is of a kind, a method of that kind is
one of the first ones. -/
theorem getElem?_append_of_credential {first rest : List VerificationMethod}
    (hrest : ∀ b ∈ rest, b.credential? ≠ some kind)
    (hm : m.credential? = some kind) :
    (first ++ rest)[n]? = some m ↔ first[n]? = some m := by
  by_cases hn : n < first.length
  · rw [List.getElem?_append_left hn]
  · have hlength : first.length ≤ n := Nat.le_of_not_lt hn
    rw [List.getElem?_append_right hlength, List.getElem?_eq_none hlength]
    exact ⟨fun h => absurd hm (hrest m (List.mem_of_getElem? h)), nofun⟩

namespace Arranged

/-- What stands behind the anchors is neither of the device nor of the
client. -/
theorem getElem?_anchor (h : i.Arranged a)
    (hkind : kind ∈ [Credential.device, .binder])
    (hm : m.credential? = some kind) :
    i.methods[n]? = some m ↔ a.anchors[n]? = some m := by
  obtain ⟨seed, controller, children, hmethods, -⟩ := h
  rw [hmethods, Arrangement.keys, List.append_assoc]
  refine getElem?_append_of_credential (fun b hb hcredential => ?_) hm
  have hother : b.credential? = some .passwordOnDevice ∨
      b.credential? = some .passwordOnBinder ∨
      b.credential? = none := by
    rcases List.mem_append.mp hb with hb | hb
    · rcases List.mem_cons.mp hb with rfl | hb
      · obtain ⟨pem, hpublishes⟩ := a.opening
        exact .inl hpublishes.credential
      · obtain ⟨pem, hpublishes⟩ := a.joining b hb
        exact .inr (.inl hpublishes.credential)
    · rw [List.mem_singleton.mp hb]
      exact .inr (.inr (holds_node children seed controller).credential)
  rw [hcredential] at hother
  revert hkind hother
  cases kind <;> simp

/-- The password key of the device stands behind the anchors, and there is no
other. -/
theorem only_secret (h : i.Arranged a) :
    i.toDocument.Only .passwordOnDevice a.anchors.length a.secret := by
  obtain ⟨seed, controller, children, hmethods, -⟩ := h
  obtain ⟨pem, hsecret⟩ := a.opening
  have hsplit : i.toDocument.methods = a.anchors ++ a.secret :: (a.behind ++
      [.holding (policyId seed) controller (.any children)]) := by
    show i.methods = _
    rw [hmethods, Arrangement.keys, List.append_assoc, List.cons_append]
  have hanchors : ∀ b ∈ a.anchors, b.credential? ≠ some .passwordOnDevice := by
    intro b hb
    obtain ⟨kind, hkind, pem, hpublishes⟩ := (a.anchoring b hb).publishes
    rw [hpublishes.credential]
    revert hkind
    cases kind <;> decide
  have hrest :
      ∀ b ∈ a.behind ++ [.holding (policyId seed) controller (.any children)],
      b.credential? ≠ some .passwordOnDevice := by
    intro b hb
    rcases List.mem_append.mp hb with hb | hb
    · obtain ⟨pem, hpublishes⟩ := a.joining b hb
      rw [hpublishes.credential]
      decide
    · rw [List.mem_singleton.mp hb,
        (holds_node children seed controller).credential]
      decide
  intro k b
  rw [hsplit]
  constructor
  · rintro ⟨hb, hcredential⟩
    rcases Nat.lt_or_ge k a.anchors.length with hk | hk
    · rw [List.getElem?_append_left hk] at hb
      exact absurd hcredential (hanchors b (List.mem_of_getElem? hb))
    · obtain ⟨n, rfl⟩ := Nat.exists_eq_add_of_le hk
      rw [List.getElem?_append_right hk, Nat.add_sub_cancel_left] at hb
      cases n with
      | zero => exact ⟨rfl, (Option.some.inj hb).symm⟩
      | succ n => exact absurd hcredential (hrest b (List.mem_of_getElem? hb))
  · rintro ⟨rfl, rfl⟩
    refine ⟨?_, hsecret.credential⟩
    rw [List.getElem?_append_right (Nat.le_refl _), Nat.sub_self]
    rfl

/-- The policy refers to keys that stand before its node. -/
theorem exists_node (h : i.Arranged a) :
    ∃ keys node policy, i.methods = keys ++ [node] ∧ node.Holds policy ∧
      ∀ r ∈ policy.references, ∃ m ∈ keys, ∃ key, m.reference? = some r ∧
        m.publicKeyPem = some key := by
  obtain ⟨seed, controller, children, hmethods, hchildren⟩ := h
  refine ⟨a.keys, _, .any children, hmethods,
    holds_node children seed controller, fun r hr => ?_⟩
  rw [Policy.references] at hr
  obtain ⟨m, hm, hreference⟩ := hchildren r hr
  obtain ⟨kind, pem, hpublishes⟩ := Arrangement.publishes_of_mem hm
  exact ⟨m, hm, pem, hreference, hpublishes.key⟩

end Arranged

/-- Where the password key of arranged keys is replaced, the document is one
with a new password key. -/
theorem reissued_of_arranged (hi : i.Arranged a)
    (hpublishes : m.Publishes .passwordOnDevice pem)
    (hreplaced : Text.holds Credential.passwordOnDevice.queryPair m.id = true)
    (hj : j.Arranged (a.replace m ⟨pem, hpublishes⟩ hreplaced))
    (hstanding : j.Standing) (hdid : j.did = i.did) :
    i.toDocument.Reissued j.toDocument pem where
  subject := hdid
  device := by
    obtain ⟨b, hb, pem, hdevice⟩ := a.device
    obtain ⟨seed, controller, children, hmethods, -⟩ := hi
    refine ⟨b, ?_, hdevice.credential⟩
    show b ∈ i.methods
    rw [hmethods]
    exact List.mem_append_left _ (Arrangement.mem_keys_of_anchor hb)
  anchors kind hkind n b hb :=
    (hj.getElem?_anchor hkind hb).trans (hi.getElem?_anchor hkind hb).symm
  secret := by
    obtain ⟨front, hid⟩ := VerificationMethod.exists_id_eq hpublishes.reference
    exact ⟨a.anchors.length, a.secret, m, front, hi.only_secret, hj.only_secret,
      hpublishes, hid⟩
  node := hj.exists_node
  invocations := hstanding.invocations

end Identifier

end DidVault
