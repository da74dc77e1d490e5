import DidVault.Proofs.Did.Identifier

/-!
# Sound identifiers

Whatever is published, removed and installed on an identifier, its DID names the
key of one of its methods, no key is published twice, the id of a key begins
with the hash of the key, and no relationship has a reference twice
(`Identifier.Sound`).  If references are only added for methods that are there,
every reference stays one of a method (`Identifier.Refers`), since a method is
removed with the references to it.

Operations change an identifier by four kinds of steps; what these keep is
`Stable`.
-/

namespace DidVault

/-- The id of a method that has a key in PEM begins with the hash of that
key. -/
def VerificationMethod.NamesKey (m : VerificationMethod) : Prop :=
  ∀ pem ∈ m.publicKeyPem,
    Text.beginsWith (Names.keyStart ++ Address.keyHash (Utf8.encode pem))
      m.id = true

namespace Relationships

variable {lists : Relationships} {r r' : Relationship} {reference s : String}

/-- What is done to all lists is done to each. -/
theorem get_map (f : List String → List String) (lists : Relationships)
    (r : Relationship) :
    (lists.map f).get r = f (lists.get r) := by
  cases r <;> rfl

/-- The other lists stay as they are. -/
theorem get_set (lists : Relationships) (r r' : Relationship)
    (references : List String) :
    (lists.set r references).get r' = if r' =
      r then references else lists.get r' := by
  cases r <;> cases r' <;> rfl

/-- An addition adds one reference to one list. -/
theorem mem_get_add :
    s ∈ (lists.add r reference).get r' ↔
      s ∈ lists.get r' ∨ (r' = r ∧ s = reference) := by
  unfold add
  split
  · next hmem =>
      refine ⟨.inl, fun h => h.elim id ?_⟩
      rintro ⟨rfl, rfl⟩
      exact hmem
  · rw [get_set]
    split
    · next hr => simp [hr]
    · next hr => simp [hr]

/-- A reference is not added a second time. -/
theorem nodup_get_add (h : (lists.get r').Nodup) :
    ((lists.add r reference).get r').Nodup := by
  unfold add
  split
  · exact h
  · next hnew =>
      rw [get_set]
      split
      · next hr =>
          rw [← hr] at hnew ⊢
          rw [(List.perm_append_singleton reference _).nodup_iff]
          exact List.nodup_cons.mpr ⟨hnew, h⟩
      · exact h

end Relationships

namespace Identifier

open Issuing

/-- The method whose key the DID names: the first method of the device that has
a key in PEM, or else the first method that has one. -/
def founder? (i : Identifier) : Option VerificationMethod :=
  i.methods.find?
    (fun m => m.credential? == some .device && m.publicKeyPem.isSome)
      <|> i.methods.find? (·.publicKeyPem.isSome)

/-- The DID names the key of its founder, every key is published once and named
by the id of its method, and no relationship has a reference twice. -/
structure Sound (i : Identifier) : Prop where
  id : i.url.id =
    (i.founder?.bind (·.publicKeyPem)).elim "" fun pem =>
      Address.spaceId (Utf8.encode pem)
  distinct : (i.methods.filterMap (·.materialHash?)).Nodup
  named : ∀ m ∈ i.methods, m.NamesKey
  once : ∀ r, (i.relationships.get r).Nodup

/-- Every reference of a relationship is the reference of a method. -/
def Refers (i : Identifier) : Prop :=
  ∀ r, ∀ reference ∈ i.relationships.get r, ∃ m ∈ i.methods,
    m.reference? = some reference

variable {i : Identifier} {m : VerificationMethod} {index : Option Nat}
  {r : Relationship}
variable {reference : String}

/-- The first result of a list is the result of the first element that has
one. -/
theorem findSome?_eq_bind {α β : Type} (f : α → Option β) (as : List α) :
    as.findSome? f = (as.find? fun a => (f a).isSome).bind f := by
  induction as with
  | nil => rfl
  | cons a as ih =>
      rw [List.findSome?_cons, List.find?_cons]
      cases hfa : f a with
      | none => exact ih
      | some b => exact hfa.symm

/-- The key that the DID is derived from is that of the founder. -/
theorem sourcePem?_eq (i : Identifier) :
    i.sourcePem? = i.founder?.bind (·.publicKeyPem) := by
  have hdevice : (i.methodsOf .device).findSome? (·.publicKeyPem) =
      (i.methods.find? fun m =>
        m.credential? == some .device && m.publicKeyPem.isSome).bind
          (·.publicKeyPem) := by
    rw [findSome?_eq_bind, methodsOf, List.find?_filter]
    simp only [Bool.decide_and, Bool.decide_eq_true]
  rw [sourcePem?, hdevice, findSome?_eq_bind, founder?]
  cases hfound : i.methods.find? fun m =>
      m.credential? == some .device && m.publicKeyPem.isSome with
  | none => rfl
  | some m =>
      have hm := List.find?_some hfound
      obtain ⟨pem, hpem⟩ :=
        Option.isSome_iff_exists.mp (Bool.and_eq_true_iff.mp hm).2
      show (m.publicKeyPem <|> _) = m.publicKeyPem
      rw [hpem]
      rfl

/-- The identifier that is derived names the key of the founder, if there is
one. -/
theorem derivedId_eq (i : Identifier) :
    i.derivedId =
      (i.founder?.bind (·.publicKeyPem)).elim "" fun pem =>
        Address.spaceId (Utf8.encode pem) := by
  rw [derivedId, sourcePem?_eq]
  cases i.founder?.bind (·.publicKeyPem) <;> rfl

/-- A new identifier has no method, and no key to name. -/
theorem sound_new : Identifier.new.Sound where
  id := rfl
  distinct := .nil
  named := nofun
  once r := by cases r <;> exact .nil

/-- A new identifier has no reference. -/
theorem refers_new : Identifier.new.Refers := by
  intro r
  cases r <;> exact nofun

/-- An insertion adds one method, wherever it goes. -/
theorem insertMethod_perm (i : Identifier) (m : VerificationMethod)
    (index : Option Nat) :
    (i.insertMethod m index).methods.Perm (m :: i.methods) := by
  cases index with
  | none => exact List.perm_append_comm
  | some n =>
      have hmiddle : (i.methods.take n ++ m :: i.methods.drop n).Perm
          (m :: (i.methods.take n ++ i.methods.drop n)) := List.perm_middle
      rw [List.take_append_drop] at hmiddle
      exact hmiddle

/-- A removal leaves the references that none of the removed methods has. -/
theorem get_removeWhere (i : Identifier) (gone : VerificationMethod → Bool)
    (r : Relationship) :
    (i.removeWhere gone).1.relationships.get r =
      (i.relationships.get r).filter fun reference =>
        ∀ m ∈ i.methods, gone m = true → m.reference? ≠ some reference := by
  show (i.relationships.map _).get r = _
  rw [Relationships.get_map]
  refine List.filter_congr fun reference _ => ?_
  rw [Bool.eq_iff_iff, Bool.not_eq_true', ← Bool.not_eq_true,
    List.contains_iff_mem, decide_eq_true_iff]
  simp only [List.mem_filterMap, List.mem_filter]
  constructor
  · exact fun h m hm hgone hreference => h ⟨m, ⟨hm, hgone⟩, hreference⟩
  · rintro h ⟨m, ⟨hm, hgone⟩, hreference⟩
    exact h m hm hgone hreference

/-- A method with a new key or none may be inserted anywhere. -/
theorem Sound.insertMethod (hsound : i.Sound)
    (hnew : ∀ hash ∈ m.materialHash?, ∀ b ∈ i.methods,
      b.materialHash? ≠ some hash)
    (hm : m.NamesKey) (index : Option Nat) :
    (i.insertMethod m index).Sound where
  id := derivedId_eq _
  distinct := by
    have hperm := (insertMethod_perm i m index).filterMap (·.materialHash?)
    rw [hperm.nodup_iff, List.filterMap_cons]
    split
    · exact hsound.distinct
    · next hash hhash =>
        refine List.nodup_cons.mpr ⟨fun hmem => ?_, hsound.distinct⟩
        obtain ⟨b, hb, hsame⟩ := List.mem_filterMap.mp hmem
        exact hnew hash hhash b hb hsame
  named b hb := by
    rcases List.mem_cons.mp ((insertMethod_perm i m index).mem_iff.mp hb)
      with rfl | h
    · exact hm
    · exact hsound.named b h
  once := hsound.once

/-- A removal leaves a sound identifier, whichever methods it removes. -/
theorem Sound.removeWhere (hsound : i.Sound)
    (gone : VerificationMethod → Bool) :
    (i.removeWhere gone).1.Sound where
  id := derivedId_eq _
  distinct := hsound.distinct.sublist (List.filter_sublist.filterMap _)
  named b hb := hsound.named b (List.mem_filter.mp hb).1
  once r := by
    rw [get_removeWhere]
    exact (hsound.once r).filter _

/-- A further reference does a sound identifier no harm. -/
theorem Sound.relate (hsound : i.Sound) (r : Relationship)
    (reference : String) :
    (i.relate r reference).Sound where
  id := hsound.id
  distinct := hsound.distinct
  named := hsound.named
  once r' := Relationships.nodup_get_add (hsound.once r')

/-- References to methods that are there stay so when a method is added. -/
theorem Refers.insertMethod (hrefers : i.Refers) (m : VerificationMethod)
    (index : Option Nat) :
    (i.insertMethod m index).Refers := by
  intro r reference hreference
  obtain ⟨b, hb, href⟩ := hrefers r reference hreference
  exact ⟨b, (insertMethod_perm i m index).mem_iff.mpr
    (List.mem_cons_of_mem _ hb), href⟩

/-- The references to removed methods are removed with them, and the other
methods stay. -/
theorem Refers.removeWhere (hrefers : i.Refers)
    (gone : VerificationMethod → Bool) :
    (i.removeWhere gone).1.Refers := by
  intro r reference hreference
  rw [get_removeWhere] at hreference
  obtain ⟨hmem, hkept⟩ := List.mem_filter.mp hreference
  obtain ⟨b, hb, href⟩ := hrefers r reference hmem
  refine ⟨b, List.mem_filter.mpr ⟨hb, ?_⟩, href⟩
  rw [Bool.not_eq_true', Bool.eq_false_iff]
  exact fun hgone => of_decide_eq_true hkept b hb hgone href

/-- If every reference is one of a method, then the references to the node of a
policy are removed with it, and no others. -/
theorem Refers.get_removeRecovery (hrefers : i.Refers) (r : Relationship) :
    (i.removeFragment Names.recoveryFragment).1.relationships.get r =
      (i.relationships.get r).filter
        (· ≠ Names.reference Names.recoveryFragment) := by
  rw [removeRecovery_eq, get_removeWhere]
  refine List.filter_congr fun reference hreference => ?_
  rw [decide_eq_decide]
  constructor
  · rintro hkept rfl
    obtain ⟨m, hm, hsame⟩ := hrefers r _ hreference
    exact hkept m hm
      (beq_iff_eq.mpr (VerificationMethod.reference?_iff.mp hsame)) hsame
  · intro hother m _ hnode hsame
    have hrecovery :=
      VerificationMethod.reference?_iff.mpr (beq_iff_eq.mp hnode)
    exact hother (Option.some.inj (hsame.symm.trans hrecovery))

/-- A reference to a method that is there may be added. -/
theorem Refers.relate (hrefers : i.Refers)
    (hthere : ∃ m ∈ i.methods, m.reference? = some reference) :
    (i.relate r reference).Refers := by
  intro r' s hs
  rcases Relationships.mem_get_add.mp hs with h | ⟨-, rfl⟩
  · exact hrefers r' s h
  · exact hthere

/-- What the steps keep that identifiers are changed by: publishing a key that
no method has, removing methods, installing a policy, and adding a reference to
a method that is there. -/
structure Stable (P : Identifier → Prop) : Prop where
  publish : ∀ {i : Identifier} (keyType : KeyType)
    (pem query fragment controller : String) (index : Option Nat), P i →
    i.methods.any (·.materialHash? == some (Address.keyHash (Utf8.encode pem)))
      = false →
    P (i.insertMethod
      (.publishing (methodId pem query fragment) keyType controller pem) index)
  remove : ∀ {i : Identifier} (gone : VerificationMethod → Bool), P i →
    P (i.removeWhere gone).1
  install : ∀ {i : Identifier} (policy : Policy) (seed : Bytes)
    (controller : String), P i →
    P (i.insertMethod (.holding (policyId seed) controller policy) none)
  relate : ∀ {i : Identifier} (r : Relationship) {reference : String}, P i →
    (∃ m ∈ i.methods, m.reference? = some reference) → P (i.relate r reference)

/-- A published method names its key in its id. -/
theorem namesKey_publishing (keyType : KeyType)
    (pem query fragment controller : String) :
    (VerificationMethod.publishing (methodId pem query fragment)
      keyType controller pem).NamesKey := by
  intro key hkey
  obtain rfl : pem = key := Option.some.inj hkey
  rw [Text.beginsWith, List.isPrefixOf_iff_prefix]
  show _ <+: (methodId pem query fragment).toList
  simp only [methodId, String.toList_append, List.append_assoc]
  exact ⟨_, List.append_assoc ..⟩

/-- A method that holds a policy has no key. -/
theorem publicKeyPem_holding (id controller : String) (policy : Policy) :
    (VerificationMethod.holding id controller policy).publicKeyPem = none := by
  cases policy <;> rfl

/-- A method that holds a policy has no key whose hash would count. -/
theorem materialHash?_holding (id controller : String) (policy : Policy) :
    (VerificationMethod.holding id controller policy).materialHash? = none := by
  cases policy <;> rfl

/-- All four steps keep an identifier sound. -/
theorem stable_sound : Stable Sound where
  publish keyType pem query fragment controller index hsound hfresh := by
    refine hsound.insertMethod ?_
      (namesKey_publishing keyType pem query fragment _) index
    intro hash hhash b hb hsame
    obtain rfl : Address.keyHash (Utf8.encode pem) = hash :=
      Option.some.inj hhash
    exact List.any_eq_false.mp hfresh b hb (beq_iff_eq.mpr hsame)
  remove gone hsound := hsound.removeWhere gone
  install policy seed controller hsound := by
    refine hsound.insertMethod ?_ ?_ none
    · rw [materialHash?_holding]
      exact nofun
    · rw [VerificationMethod.NamesKey, publicKeyPem_holding]
      exact nofun
  relate r reference hsound _ := hsound.relate r reference

/-- All four steps keep every reference one of a method. -/
theorem stable_refers : Stable Refers where
  publish _ _ _ _ _ index hrefers _ := hrefers.insertMethod _ index
  remove gone hrefers := hrefers.removeWhere gone
  install _ _ _ hrefers := hrefers.insertMethod _ none
  relate _ _ hrefers hthere := hrefers.relate hthere

namespace Stable

variable {P : Identifier → Prop} {now : Timestamp} {kind : Credential}
  {keyType : KeyType}
variable {pem : String} {others : List (String × String)}

/-- A reference may be added to several relationships one after the other. -/
theorem relateAll (hstable : Stable P) (rs : List Relationship) (hi : P i)
    (hthere : ∃ m ∈ i.methods, m.reference? = some reference) :
    P (rs.foldl (fun i r => i.relate r reference) i) := by
  induction rs generalizing i with
  | nil => exact hi
  | cons r rs ih => exact ih (hstable.relate r hi hthere) hthere

/-- The references that are added with a published key are those of its
method. -/
theorem published (hstable : Stable P)
    (hothers : ∀ p ∈ others, '#' ∉ p.1.toList ∧ '#' ∉ p.2.toList) (hi : P i)
    (hfresh : i.methods.any
      (·.materialHash? == some (Address.keyHash (Utf8.encode pem))) = false) :
    P (i.published kind keyType pem (queryWith now kind others) index) := by
  have hpublishes :=
    publishes_issuedMethod now kind keyType pem (Names.reference i.fragment)
      hothers
  refine hstable.relateAll _
    (hstable.publish keyType pem _ _ _ index hi hfresh) ?_
  exact ⟨_, (insertMethod_perm i _ index).mem_iff.mpr List.mem_cons_self,
    hpublishes.reference⟩

/-- The reference that is added with a policy is that of its node. -/
theorem installed (hstable : Stable P) (policy : Policy) (seed : Bytes)
    (hi : P i) :
    P (i.installPolicy policy seed) := by
  refine hstable.relate _
    (hstable.install policy seed _ (hstable.remove _ hi)) ?_
  refine ⟨_, (insertMethod_perm _ _ none).mem_iff.mpr List.mem_cons_self, ?_⟩
  have hreference := (holds_node [] seed "").reference
  cases policy <;> exact hreference

end Stable

end Identifier

end DidVault
