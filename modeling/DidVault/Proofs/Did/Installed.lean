import DidVault.Proofs.Did.Removal
import DidVault.Proofs.Did.Standing

/-!
# Installed policies

The node of a policy takes the place of all methods of the fragment of recovery
and of all references to them (`Identifier.Installed`).

References are looked up before that, with or without a hash in front, but a
valid document has them as its methods are referred to.  So the document stays
valid only if all references were written that way, and a policy that was
composed of the node before refers to itself
(`Identifier.valid_iff_of_addRecovery`).
-/

namespace DidVault

open IssueM Issuing Identifier

/-- A policy refers to exactly what it was composed of. -/
theorem Policy.mem_references_iff {anchors others : List String}
    {policy : Policy} {s : String}
    (hpolicy : compose anchors others = .ok policy) :
    s ∈ policy.references ↔ s ∈ anchors ++ others := by
  refine ⟨mem_of_mem_references hpolicy, fun hs => ?_⟩
  -- the first clause has its anchor and every other reference
  obtain ⟨a, ha⟩ : ∃ a, a ∈ anchors :=
    List.exists_mem_of_ne_nil _ (exists_compose_iff.mp ⟨policy, hpolicy⟩).1
  rw [compose_ok hpolicy, references, mem_listReferences]
  refine ⟨_, List.mem_map_of_mem (mem_distinct.mpr ha), ?_⟩
  rw [clause, references, mem_listReferences]
  by_cases hsame : s = a
  · refine ⟨.key a, List.mem_cons_self, ?_⟩
    rw [references, List.mem_singleton]
    exact hsame
  · refine ⟨_, List.mem_cons_of_mem _ (List.mem_singleton_self _), ?_⟩
    rw [references, mem_listReferences]
    refine ⟨.key s,
      List.mem_map_of_mem (List.mem_filter.mpr ⟨?_, bne_iff_ne.mpr hsame⟩), ?_⟩
    · exact mem_distinct.mpr hs
    · rw [references, List.mem_singleton]

/-- A node stands behind the methods of other fragments, which are left in their
order, and the reference to it stands once, among the invocations.  Other
references are as before. -/
structure Identifier.Installed (i i' : Identifier) (node : VerificationMethod) :
    Prop where
  fragment : node.fragment? = some Names.recoveryFragment
  methods : i'.methods =
    i.methods.filter (·.fragment? ≠ some Names.recoveryFragment) ++ [node]
  once : (i'.relationships.get .capabilityInvocation).count
    (Names.reference Names.recoveryFragment) = 1
  elsewhere : ∀ r ≠ .capabilityInvocation,
    Names.reference Names.recoveryFragment ∉ i'.relationships.get r
  others : ∀ r,
    (i'.relationships.get r).filter (· ≠ Names.reference Names.recoveryFragment)
      = (i.relationships.get r).filter
        (· ≠ Names.reference Names.recoveryFragment)

namespace Identifier

variable {i : Identifier} {anchors others : List String} {policy : Policy}
  {seed : Bytes}
variable {s : String}

/-- The references of a document are those of its methods. -/
theorem mem_methodReferences :
    s ∈ i.toDocument.methodReferences ↔ ∃ m ∈ i.methods,
      m.reference? = some s :=
  List.mem_filterMap

/-- The reference to the node is added to the invocations. -/
theorem get_installPolicy (policy : Policy) (seed : Bytes) (hrefers : i.Refers)
    (r : Relationship) :
    (i.installPolicy policy seed).relationships.get r =
      (i.relationships.get r).filter
        (· ≠ Names.reference Names.recoveryFragment) ++
        if r = .capabilityInvocation then
          [Names.reference Names.recoveryFragment] else [] := by
  have hremoved := hrefers.get_removeRecovery
  have hnew : Names.reference Names.recoveryFragment ∉
      (i.removeFragment Names.recoveryFragment).1.relationships.get
        .capabilityInvocation := by
    rw [hremoved]
    exact fun hmem => of_decide_eq_true (List.mem_filter.mp hmem).2 rfl
  show ((i.removeFragment Names.recoveryFragment).1.relationships.add
      .capabilityInvocation
    (Names.reference Names.recoveryFragment)).get r = _
  rw [Relationships.add, if_neg hnew, Relationships.get_set]
  split
  · next hr => rw [hr, hremoved]
  · rw [hremoved, List.append_nil]

/-- A policy that is composed becomes the node of a choice. -/
theorem installed_installPolicy (hrefers : i.Refers)
    (hpolicy : Policy.compose anchors others = .ok policy) (seed : Bytes) :
    i.Installed (i.installPolicy policy seed)
      (.holding (policyId seed) (Names.reference i.fragment) policy) where
  fragment := by
    rw [Policy.compose_ok hpolicy]
    exact fragment?_node ..
  methods := by
    rw [methods_installPolicy]
    refine congrArg (· ++ _) (List.filter_congr fun m _ => ?_)
    rw [decide_not, ← beq_eq_decide]
  once := by
    rw [get_installPolicy policy seed hrefers, if_pos rfl, List.count_append,
      List.count_singleton_self, List.count_eq_zero_of_not_mem]
    exact fun hmem => of_decide_eq_true (List.mem_filter.mp hmem).2 rfl
  elsewhere r hr := by
    rw [get_installPolicy policy seed hrefers, if_neg hr, List.append_nil]
    exact fun hmem => of_decide_eq_true (List.mem_filter.mp hmem).2 rfl
  others r := by
    rw [get_installPolicy policy seed hrefers, List.filter_append,
      List.filter_filter]
    split <;> simp

/-- A node holds the policy that it was made of. -/
theorem policy?_holding (hpolicy : Policy.compose anchors others = .ok policy)
    (id controller : String) :
    (VerificationMethod.holding id controller policy).policy? =
      some policy := by
  rw [Policy.compose_ok hpolicy]
  rfl

/-- A reference is one of another method than the node exactly if it is one of a
method before, and not that of the node. -/
theorem exists_ne_node_iff {i' : Identifier} {node : VerificationMethod}
    (hinstalled : i.Installed i' node) :
    (∃ m ∈ i'.methods, m ≠ node ∧ m.reference? = some s) ↔
      s ≠ Names.reference Names.recoveryFragment ∧
        ∃ m ∈ i.methods, m.reference? = some s := by
  rw [hinstalled.methods]
  constructor
  · rintro ⟨m, hm, hother, hsame⟩
    rcases List.mem_append.mp hm with hold | hlast
    · obtain ⟨hm, hkept⟩ := List.mem_filter.mp hold
      refine ⟨?_, m, hm, hsame⟩
      rintro rfl
      exact of_decide_eq_true hkept (VerificationMethod.reference?_iff.mp hsame)
    · exact absurd (List.mem_singleton.mp hlast) hother
  · rintro ⟨hs, m, hm, hsame⟩
    have hkept : m.fragment? ≠ some Names.recoveryFragment := by
      intro hrecovery
      rw [VerificationMethod.reference?_iff.mpr hrecovery] at hsame
      exact hs (Option.some.inj hsame).symm
    refine ⟨m, List.mem_append_left _
      (List.mem_filter.mpr ⟨hm, decide_eq_true hkept⟩), ?_, hsame⟩
    rintro rfl
    exact hkept hinstalled.fragment

/-- The document refers to the methods of the one before and to the node. -/
theorem mem_methodReferences_of_installed {i' : Identifier}
    {node : VerificationMethod} (hinstalled : i.Installed i' node) :
    s ∈ i'.toDocument.methodReferences ↔
      s = Names.reference Names.recoveryFragment ∨
      s ∈ i.toDocument.methodReferences := by
  have hnode := VerificationMethod.reference?_iff.mpr hinstalled.fragment
  have hlast : node ∈ i'.methods := by
    rw [hinstalled.methods]
    exact List.mem_append_right _ (List.mem_singleton_self _)
  rw [mem_methodReferences, mem_methodReferences]
  constructor
  · rintro ⟨m, hm, hsame⟩
    by_cases hother : m = node
    · rw [hother, hnode] at hsame
      exact .inl (Option.some.inj hsame).symm
    · exact .inr ((exists_ne_node_iff hinstalled).mp ⟨m, hm, hother, hsame⟩).2
  · intro h
    by_cases hs : s = Names.reference Names.recoveryFragment
    · exact ⟨node, hlast, hs ▸ hnode⟩
    · obtain ⟨m, hm, -, hsame⟩ :=
        (exists_ne_node_iff hinstalled).mpr ⟨hs, h.resolve_left hs⟩
      exact ⟨m, hm, hsame⟩

/-- All references of a valid document are those of its methods. -/
theorem refers_of_valid (hvalid : i.toDocument.Valid) : i.Refers :=
  fun r reference h => mem_methodReferences.mp (hvalid.refers r reference h)

/-- With the node of a policy a valid document stays valid if all references of
the policy are those of methods. -/
theorem valid_installPolicy (hvalid : i.toDocument.Valid)
    (hpolicy : Policy.compose anchors others = .ok policy)
    (hknown : ∀ s ∈ policy.references, s ∈ i.toDocument.methodReferences) :
    (i.installPolicy policy seed).toDocument.Valid := by
  have hrefers := refers_of_valid hvalid
  have hinstalled := installed_installPolicy hrefers hpolicy seed
  have hreferences {s : String} :=
    mem_methodReferences_of_installed (s := s) hinstalled
  obtain ⟨children, rfl⟩ : ∃ children, policy = .any children :=
    ⟨_, Policy.compose_ok hpolicy⟩
  have hcases {m : VerificationMethod}
      (hm : m ∈ (i.installPolicy (.any children) seed).toDocument.methods) :
      m ∈ i.methods ∨
        m = .holding (policyId seed) (Names.reference i.fragment)
          (.any children) := by
    change m ∈ (i.installPolicy (.any children) seed).methods at hm
    rw [hinstalled.methods] at hm
    exact (List.mem_append.mp hm).imp (fun h => (List.mem_filter.mp h).1)
      List.mem_singleton.mp
  constructor
  · exact beginsWith_did _
  · show (i.installPolicy (.any children) seed).methods ≠ []
    rw [hinstalled.methods]
    exact List.append_ne_nil_of_right_ne_nil _ (List.cons_ne_nil _ _)
  · intro m hm
    rcases hcases hm with hold | rfl
    · exact hvalid.regular m hold
    · exact VerificationMethod.regular_node ..
  · show ((i.installPolicy (.any children) seed).methods.filterMap _).Nodup
    rw [hinstalled.methods, List.filterMap_append]
    show (_ ++ []).Nodup
    rw [List.append_nil]
    exact hvalid.distinct.sublist (List.filter_sublist.filterMap _)
  · intro r reference hmem
    change reference ∈
      (i.installPolicy (.any children) seed).relationships.get r at hmem
    rw [get_installPolicy _ seed hrefers] at hmem
    rcases List.mem_append.mp hmem with hold | hnew
    · exact hreferences.mpr
        (.inr (hvalid.refers r reference (List.mem_filter.mp hold).1))
    · split at hnew
      · exact hreferences.mpr (.inl (List.mem_singleton.mp hnew))
      · cases hnew
  · intro m hm policy hpolicy s hs
    rcases hcases hm with hold | rfl
    · exact hreferences.mpr (.inr (hvalid.policies m hold policy hpolicy s hs))
    · obtain rfl : Policy.any children = policy := Option.some.inj hpolicy
      exact hreferences.mpr (.inr (hknown s hs))

/-- A valid document stays valid exactly if the policy was composed of
references of methods; to the node before they may be found anew, since it has
the fragment of the node. -/
theorem valid_installPolicy_iff (hvalid : i.toDocument.Valid)
    (hpolicy : i.recoveryPolicy anchors others = .ok policy) :
    (i.installPolicy policy seed).toDocument.Valid ↔
      ∀ s ∈ anchors ++ others, ∃ m ∈ i.methods, m.reference? = some s := by
  have hcompose := recoveryPolicy_ok hpolicy
  have hname :
      Text.withoutLeading '#' (Names.reference Names.recoveryFragment) =
        Names.recoveryFragment := by decide
  constructor
  · intro hnew s hs
    have hs' := (Policy.mem_references_iff hcompose).mpr hs
    have hinstalled :=
      installed_installPolicy (refers_of_valid hvalid) hcompose seed
    have hnode : .holding (policyId seed) (Names.reference i.fragment) policy ∈
        (i.installPolicy policy seed).methods := by
      rw [hinstalled.methods]
      exact List.mem_append_right _ (List.mem_singleton_self _)
    have hknown :=
      hnew.policies _ hnode policy (policy?_holding hcompose _ _) s hs'
    rcases (mem_methodReferences_of_installed hinstalled).mp hknown
      with rfl | hold
    · obtain ⟨m, hm, hfragment⟩ := (recoveryPolicy_iff.mp hpolicy).2 _ hs'
      rw [hname] at hfragment
      exact ⟨m, hm, VerificationMethod.reference?_iff.mpr hfragment⟩
    · exact mem_methodReferences.mp hold
  · intro hknown
    refine valid_installPolicy hvalid hcompose fun s hs =>
      mem_methodReferences.mpr ?_
    exact hknown s ((Policy.mem_references_iff hcompose).mp hs)

/-- Two different references that are found, one of them an anchor, are enough
for a policy to be installed. -/
theorem exists_runs_addRecovery {d : Desk} {a b : String}
    (hanchor : a ∈ anchors) (hother : b ∈ anchors ++ others) (hne : a ≠ b)
    (hfound : ∀ s ∈ anchors ++ others, ∃ m ∈ i.methods,
      m.fragment? = some (Text.withoutLeading '#' s))
    (henough : seedLength ≤ d.entropy.length) :
    ∃ id i' d', Runs (addRecovery anchors others) (i, d) (.ok id) (i', d') := by
  obtain ⟨policy, hcompose⟩ := Policy.exists_compose_iff.mpr
    ⟨List.ne_nil_of_mem hanchor, a, List.mem_append_left _ hanchor, b,
      hother, hne⟩
  have hpolicy : i.recoveryPolicy anchors others = .ok policy := by
    refine recoveryPolicy_iff.mpr ⟨hcompose, fun s hs => hfound s ?_⟩
    exact (Policy.mem_references_iff hcompose).mp hs
  have hrun : Runs (addRecovery anchors others) (i, d)
      (.ok (policyId (d.entropy.take seedLength)))
      (i.installPolicy policy (d.entropy.take seedLength),
        { d with entropy := d.entropy.drop seedLength }) := by
    rw [addRecovery_iff, hpolicy]
    dsimp only
    rw [if_neg (Nat.not_lt.mpr henough)]
    exact ⟨rfl, rfl⟩
  exact ⟨_, _, _, hrun⟩

/-- An identifier with two keys, and a node of a policy that asks for none. -/
def ofTwoKeys : Identifier :=
  ((new.insertMethod (.publishing (methodId "a" "" "key-0") .rsa "#did0" "a")
    none).insertMethod
      (.publishing (methodId "abc" "" "key-1") .rsa "#did0" "abc")
        none).insertMethod
    (.holding (policyId []) "#did0" (.any [])) none

/-- The example has two keys and a node. -/
theorem mem_methods_ofTwoKeys {m : VerificationMethod} :
    m ∈ ofTwoKeys.methods ↔
      m = .publishing (methodId "a" "" "key-0") .rsa "#did0" "a" ∨
      m = .publishing (methodId "abc" "" "key-1") .rsa "#did0" "abc" ∨
      m = .holding (policyId []) "#did0" (.any []) :=
  show m ∈ [_, _, _] ↔
      _ by simp only [List.mem_cons, List.not_mem_nil, or_false]

/-- Their fragments are distinct. -/
theorem fragments_ofTwoKeys :
    ofTwoKeys.methods.map (·.fragment?) =
      [some "key-0", some "key-1", some "multisig-0"] := by
  have hfirst := (fragment?_methodId "a" "" "key-0" (by decide)).trans
    (by decide : _ = some "key-0")
  have hsecond := (fragment?_methodId "abc" "" "key-1" (by decide)).trans
    (by decide : _ = some "key-1")
  have hnode := fragment?_node [] [] "#did0"
  show [_, _, _] = _
  exact congr (congrArg _ hfirst)
    (congr (congrArg _ hsecond) (congrArg (· :: []) hnode))

/-- The example is a valid document. -/
theorem valid_ofTwoKeys : ofTwoKeys.toDocument.Valid where
  subject := beginsWith_did _
  nonempty := List.cons_ne_nil _ _
  regular m hm := by
    rcases mem_methods_ofTwoKeys.mp hm with rfl | rfl | rfl
    · exact (namesKey_publishing .rsa "a" "" "key-0" "#did0").regular rfl rfl
    · exact (namesKey_publishing .rsa "abc" "" "key-1" "#did0").regular rfl rfl
    · exact VerificationMethod.regular_node [] _ _
  distinct := by
    show [Address.keyHash (Utf8.encode "a"),
        Address.keyHash (Utf8.encode "abc")].Nodup
    decide +kernel
  refers r := by
    cases r <;> exact nofun
  policies m hm policy hpolicy := by
    rcases mem_methods_ofTwoKeys.mp hm with rfl | rfl | rfl
    · cases hpolicy
    · cases hpolicy
    · cases hpolicy
      exact nofun

/-- A policy that cannot be installed changes nothing.  Otherwise its node takes
the place of the one before.  A valid document stays valid exactly if the policy
was composed of references of methods, and the policy refers to other methods
alone exactly if the node before was none of these. -/
theorem valid_iff_of_addRecovery {i' : Identifier} {d d' : Desk}
    {r : Except Error String} (hvalid : i.toDocument.validate = .ok ())
    (hrun : Runs (addRecovery anchors others) (i, d) r (i', d')) :
    (∀ e, r = .error e → i' = i) ∧
      ∀ id, r = .ok id → ∃ node policy, i.Installed i' node ∧ node.id = id ∧
        node.policy? = some policy ∧
        (∀ s, s ∈ policy.references ↔ s ∈ anchors ++ others) ∧
        (i'.toDocument.validate = .ok () ↔
          ∀ s ∈ anchors ++ others, ∃ m ∈ i.methods, m.reference? = some s) ∧
        ((∀ s ∈ policy.references, ∃ m ∈ i'.methods,
          m ≠ node ∧ m.reference? = some s) ↔
            ∀ s ∈ anchors ++ others,
              s ≠ Names.reference Names.recoveryFragment ∧
                ∃ m ∈ i.methods, m.reference? = some s) := by
  have hbefore := Document.validate_iff.mp hvalid
  rcases addRecovery_cases hrun with ⟨⟨e, rfl⟩, hs⟩
    | ⟨policy, seed, d₁, hpolicy, rfl, hs⟩
  · exact ⟨fun _ _ => congrArg Prod.fst hs, nofun⟩
  · obtain ⟨rfl, -⟩ := Prod.mk.inj hs
    refine ⟨nofun, fun id hid => ?_⟩
    obtain rfl : policyId seed = id := Except.ok.inj hid
    have hcompose := recoveryPolicy_ok hpolicy
    have hinstalled :=
      installed_installPolicy (refers_of_valid hbefore) hcompose seed
    have hreferences {s : String} : s ∈ policy.references ↔
        s ∈ anchors ++ others :=
      Policy.mem_references_iff hcompose
    refine ⟨_, policy, hinstalled, ?_, policy?_holding hcompose _ _, fun _ =>
      hreferences, ?_, ?_⟩
    · rw [Policy.compose_ok hcompose]
      rfl
    · rw [Document.validate_iff]
      exact valid_installPolicy_iff hbefore hpolicy
    · simp only [exists_ne_node_iff hinstalled, hreferences]

/-- Two keys are composed to a valid document if the references to them are
written with a hash. Composed of the node before, a policy refers to itself, and
without the hash of a reference the document is not valid. -/
theorem valid_iff_of_three_policies :
    ∃ (i : Identifier) (d : Desk), i.toDocument.validate = .ok () ∧
      (∃ id i' d',
        Runs (addRecovery ["#key-0"] ["#key-1"]) (i, d) (.ok id) (i', d') ∧
        i'.toDocument.validate = .ok ()) ∧
      (∃ id i' d',
        Runs (addRecovery ["#key-0"] ["#multisig-0"]) (i, d) (.ok id) (i', d') ∧
        ∃ node ∈ i'.methods, ∃ policy, node.policy? = some policy ∧
          ¬ ∀ s ∈ policy.references, ∃ m ∈ i'.methods,
            m ≠ node ∧ m.reference? = some s) ∧
      ∃ id i' d', Runs (addRecovery ["key-0"] ["#key-1"]) (i, d)
        (.ok id) (i', d') ∧
        i'.toDocument.validate ≠ .ok () := by
  let d := Desk.bare (List.replicate seedLength 0)
  have hchecked := Document.validate_iff.mpr valid_ofTwoKeys
  have hfound {fragment : String}
      (h : fragment ∈ ["key-0", "key-1", "multisig-0"]) :
      ∃ m ∈ ofTwoKeys.methods, m.fragment? = some fragment := by
    have hmem : some fragment ∈ ofTwoKeys.methods.map (·.fragment?) := by
      rw [fragments_ofTwoKeys]
      exact List.mem_map_of_mem h
    exact List.mem_map.mp hmem
  have hruns {a b : String} (hne : a ≠ b)
      (ha : Text.withoutLeading '#' a ∈ ["key-0", "key-1", "multisig-0"])
      (hb : Text.withoutLeading '#' b ∈ ["key-0", "key-1", "multisig-0"]) :
      ∃ id i' d', Runs (addRecovery [a] [b]) (ofTwoKeys, d) (.ok id)
        (i', d') := by
    refine exists_runs_addRecovery List.mem_cons_self
      (List.mem_cons_of_mem _ List.mem_cons_self) hne ?_ (Nat.le_refl _)
    simp only [List.cons_append, List.nil_append, List.forall_mem_cons]
    exact ⟨hfound ha, hfound hb, nofun⟩
  refine ⟨ofTwoKeys, d, hchecked, ?_, ?_, ?_⟩
  · obtain ⟨id, i', d', hrun⟩ :=
      @hruns "#key-0" "#key-1" (by decide) (by decide) (by decide)
    obtain ⟨-, hinstalls⟩ := valid_iff_of_addRecovery hchecked hrun
    obtain ⟨-, -, -, -, -, -, hstays, -⟩ := hinstalls id rfl
    obtain ⟨first, hfirst, hname⟩ := @hfound "key-0" (by decide)
    obtain ⟨second, hsecond, hname'⟩ := @hfound "key-1" (by decide)
    refine ⟨id, i', d', hrun, hstays.mpr ?_⟩
    simp only [List.cons_append, List.nil_append, List.forall_mem_cons]
    exact ⟨⟨first, hfirst, VerificationMethod.reference?_iff.mpr hname⟩,
      ⟨second, hsecond, VerificationMethod.reference?_iff.mpr hname'⟩, nofun⟩
  · obtain ⟨id, i', d', hrun⟩ :=
      @hruns "#key-0" "#multisig-0" (by decide) (by decide) (by decide)
    obtain ⟨-, hinstalls⟩ := valid_iff_of_addRecovery hchecked hrun
    obtain ⟨node, policy, hinstalled, -, hpolicy, -, -, hapart⟩ :=
      hinstalls id rfl
    refine ⟨id, i', d', hrun, node, ?_, policy, hpolicy, fun h => ?_⟩
    · rw [hinstalled.methods]
      exact List.mem_append_right _ (List.mem_singleton_self _)
    · exact (hapart.mp h "#multisig-0" (by decide)).1 rfl
  · obtain ⟨id, i', d', hrun⟩ :=
      @hruns "key-0" "#key-1" (by decide) (by decide) (by decide)
    obtain ⟨-, hinstalls⟩ := valid_iff_of_addRecovery hchecked hrun
    obtain ⟨-, -, -, -, -, -, hstays, -⟩ := hinstalls id rfl
    refine ⟨id, i', d', hrun, fun h => ?_⟩
    -- every reference of a method has a hash in front
    obtain ⟨m, -, hsame⟩ := hstays.mp h "key-0" (by decide)
    obtain ⟨fragment, -, hhash⟩ := Option.map_eq_some_iff.mp hsame
    have hhead := congrArg (·.toList.head?) hhash
    simp [Names.reference] at hhead

end Identifier

end DidVault
