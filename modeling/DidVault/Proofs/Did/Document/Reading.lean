import DidVault.Did.Document.Basic
import DidVault.Proofs.Did.Policy.Wire
import DidVault.Proofs.Json.Pretty
import DidVault.Proofs.Json.Records

/-!
# Reading documents back

Methods and documents are written as records (`Json.membersOf`), so that their
normal forms have the members in a known order, and are read back by putting one
field after another into the blank record.  `Document.parse_canonicalBytes` and
`Document.parse_pretty` say so of the two texts of a document, which differ in
the arrangement of members.
-/

namespace DidVault

open Json

/-- The name of a key type is read as that key type. -/
theorem KeyType.read_name (k : KeyType) (depth : Nat) (rest : List Token) :
    KeyType.read depth (.string (.ok k.name) :: rest) = .ok (k, rest) := by
  have hknown : k.name ∈ KeyType.all.map KeyType.name := by cases k <;> decide
  have hname : (KeyType.ofName? k.name).getD conditional = k := by
    cases k <;> decide
  have hvariant :
      variant (KeyType.all.map KeyType.name) depth
        (.string (.ok k.name) :: rest) = .ok (k.name, rest) := by
    rw [variant]
    show ((if k.name ∈ _ then _ else _ : Except Fault Unit) >>= _) = _
    rw [if_pos hknown]
    rfl
  rw [KeyType.read, hvariant]
  show Except.ok ((KeyType.ofName? k.name).getD conditional, rest) = _
  rw [hname]

/-- The name of a key type is read as that key type in any arrangement. -/
theorem KeyType.read_tokens (a : Arrangement) (k : KeyType) (depth : Nat)
    (rest : List Token) :
    KeyType.read depth ((a.of (string k.name)).tokens ++ rest) =
      .ok (k, rest) := by
  cases a <;> exact k.read_name depth rest

namespace VerificationMethod

/-- The value of a member of a method. -/
def member? (m : VerificationMethod) : String → Option Json
  | "id" => some (.string m.id)
  | "type" => some (.string m.keyType.name)
  | "controller" => some (.string m.controller)
  | "publicKeyPem" => m.publicKeyPem.map .string
  | "publicKeyBase58" => m.publicKeyBase58.map .string
  | "publicKeyMultibase" => m.publicKeyMultibase.map .string
  | "conditionAnd" => m.conditionAnd.map (.array ∘ Policy.listToJson)
  | "conditionOr" => m.conditionOr.map (.array ∘ Policy.listToJson)
  | _ => none

/-- The names of a method, in the order in which they are written. -/
def names : List String :=
  ["id", "type", "controller", "publicKeyPem", "publicKeyBase58",
    "publicKeyMultibase", "conditionAnd", "conditionOr"]

/-- The names of a method in order. -/
def sortedNames : List String :=
  ["conditionAnd", "conditionOr", "controller", "id", "publicKeyBase58",
    "publicKeyMultibase", "publicKeyPem", "type"]

/-- Takes a field from a method. -/
def take (m : VerificationMethod) (name : String)
    (record : VerificationMethod) : VerificationMethod :=
  match name with
  | "id" => { record with id := m.id }
  | "type" => { record with keyType := m.keyType }
  | "controller" => { record with controller := m.controller }
  | "publicKeyPem" => { record with publicKeyPem := m.publicKeyPem }
  | "publicKeyBase58" => { record with publicKeyBase58 := m.publicKeyBase58 }
  | "publicKeyMultibase" =>
      { record with publicKeyMultibase := m.publicKeyMultibase }
  | "conditionAnd" => { record with conditionAnd := m.conditionAnd }
  | "conditionOr" => { record with conditionOr := m.conditionOr }
  | _ => record

/-- A method is written as those of its members that it has. -/
theorem toJson_eq (m : VerificationMethod) :
    m.toJson = object (membersOf m.member? names) := by
  obtain ⟨id, keyType, controller, pem, base58, multibase, conditionAnd,
      conditionOr⟩ := m
  cases pem <;> cases base58 <;> cases multibase <;> cases conditionAnd <;>
    cases conditionOr <;>
    rfl

/-- The sorted names are the names in another order. -/
theorem sortedNames_perm : sortedNames.Perm names := by decide

/-- Arranging a written method picks an order of the names and arranges each
member. -/
theorem of_toJson (a : Arrangement) (m : VerificationMethod) :
    a.of m.toJson =
      object (membersOf (fun name => (m.member? name).map a.of)
        (a.pick names sortedNames)) := by
  rw [toJson_eq]
  exact a.of_membersOf sortedNames_perm (by decide)

/-- The policies of a condition are read back. -/
theorem items_conditions (a : Arrangement) (children : List Policy)
    (limit : Nat) (rest : List Token)
    (hdepth : (array (Policy.listToJson children)).depth ≤ limit) :
    items Policy.read limit
      ((a.of (array (Policy.listToJson children))).tokens ++ rest) =
        .ok (children, rest) := by
  rw [Policy.listToJson_eq] at hdepth ⊢
  exact items_arranged children rest hdepth fun p _ limit h rest =>
    p.read_tokens a limit rest h

/-- A condition that is there is read as such. -/
theorem optional_conditions (a : Arrangement) (children : List Policy)
    (limit : Nat) (rest : List Token)
    (hdepth : (array (Policy.listToJson children)).depth ≤ limit) :
    optional (items Policy.read limit)
      ((a.of (array (Policy.listToJson children))).tokens ++ rest) =
        .ok (some children, rest) :=
  optional_tokens (a.of_array_ne_null _)
    (items_conditions a children limit rest hdepth)

/-- Each member of a method is read by its field. -/
theorem shape_reads (a : Arrangement) (m : VerificationMethod) {depth : Nat}
    (hdepth : m.toJson.depth ≤ depth + 1) :
    shape.Reads depth (fun name => (m.member? name).map a.of)
      (a.pick names sortedNames) m.take := by
  intro name hname v hv
  obtain ⟨w, hw, rfl⟩ := Option.map_eq_some_iff.mp hv
  have hmem : name ∈ names := (a.pick_perm sortedNames_perm).mem_iff.mp hname
  have hlimit : w.depth ≤ depth := by
    have := depth_le_of_member hmem hw
    rw [toJson_eq] at hdepth
    exact Nat.le_trans this (Nat.le_of_succ_le_succ hdepth)
  simp only [names, List.mem_cons, List.not_mem_nil, or_false] at hmem
  rcases hmem with rfl | rfl | rfl | rfl | rfl | rfl | rfl | rfl
  · obtain rfl := Option.some.inj hw
    exact ⟨_, rfl, fun record rest => Field.read_of (text_tokens a m.id rest)⟩
  · obtain rfl := Option.some.inj hw
    exact ⟨_, rfl, fun record rest =>
      Field.read_of (m.keyType.read_tokens a depth rest)⟩
  · obtain rfl := Option.some.inj hw
    exact ⟨_, rfl, fun record rest =>
      Field.read_of (text_tokens a m.controller rest)⟩
  · obtain ⟨text, htext, rfl⟩ := Option.map_eq_some_iff.mp hw
    refine ⟨_, rfl, fun record rest => ?_⟩
    rw [Field.read_of (optional_text_tokens a text rest), ← htext]
    rfl
  · obtain ⟨text, htext, rfl⟩ := Option.map_eq_some_iff.mp hw
    refine ⟨_, rfl, fun record rest => ?_⟩
    rw [Field.read_of (optional_text_tokens a text rest), ← htext]
    rfl
  · obtain ⟨text, htext, rfl⟩ := Option.map_eq_some_iff.mp hw
    refine ⟨_, rfl, fun record rest => ?_⟩
    rw [Field.read_of (optional_text_tokens a text rest), ← htext]
    rfl
  · obtain ⟨children, hchildren, rfl⟩ := Option.map_eq_some_iff.mp hw
    refine ⟨_, rfl, fun record rest => ?_⟩
    rw [Field.read_of (optional_conditions a children depth rest hlimit),
      ← hchildren]
    rfl
  · obtain ⟨children, hchildren, rfl⟩ := Option.map_eq_some_iff.mp hw
    refine ⟨_, rfl, fun record rest => ?_⟩
    rw [Field.read_of (optional_conditions a children depth rest hlimit),
      ← hchildren]
    rfl

/-- Taking every field of a method makes the method. -/
theorem filled_take (a : Arrangement) (m : VerificationMethod) :
    Shape.filled (fun name => (m.member? name).map a.of) m.take shape.blank
      (a.pick names sortedNames) = m := by
  obtain ⟨id, keyType, controller, pem, base58, multibase, conditionAnd,
      conditionOr⟩ := m
  cases a <;> cases pem <;> cases base58 <;> cases multibase <;>
    cases conditionAnd <;>
    cases conditionOr <;> rfl

/-- The required fields of a method have a value. -/
theorem required (a : Arrangement) (m : VerificationMethod) :
    ∀ field ∈ shape.fields, field.required = true →
      field.name ∈ a.pick names sortedNames ∧
        ((m.member? field.name).map a.of).isSome = true := by
  intro field hfield hrequired
  rw [(a.pick_perm sortedNames_perm).mem_iff]
  simp only [shape, List.mem_cons, List.not_mem_nil, or_false] at hfield
  rcases hfield with rfl | rfl | rfl | rfl | rfl | rfl | rfl | rfl
  iterate 3 exact ⟨by decide, rfl⟩
  all_goals cases hrequired

/-- A method is read back from its tokens. -/
theorem read_tokens (a : Arrangement) (m : VerificationMethod) (limit : Nat)
    (rest : List Token) (hdepth : m.toJson.depth ≤ limit) :
    read limit ((a.of m.toJson).tokens ++ rest) = .ok (m, rest) := by
  cases limit with
  | zero => cases hdepth
  | succ depth =>
      have hnodup : (a.pick names sortedNames).Nodup :=
        (a.pick_perm sortedNames_perm).nodup_iff.mpr (by decide)
      have hread :=
        Shape.read_object rest (shape_reads a m hdepth) hnodup (required a m)
      rw [read, of_toJson, hread, filled_take]

/-- Only the policies of a method are nested. -/
theorem depth_toJson_le_iff {m : VerificationMethod} {n : Nat} :
    m.toJson.depth ≤ n + 1 ↔
      (∀ children, m.conditionAnd = some children →
        (array (Policy.listToJson children)).depth ≤ n) ∧
      ∀ children, m.conditionOr = some children →
        (array (Policy.listToJson children)).depth ≤ n := by
  rw [toJson_eq, depth, Nat.add_le_add_iff_right, membersDepth_membersOf_le_iff]
  constructor
  · intro hdepth
    refine ⟨fun children h => hdepth "conditionAnd" (by decide) _ ?_,
      fun children h => hdepth "conditionOr" (by decide) _ ?_⟩
    · rw [member?, h]
      rfl
    · rw [member?, h]
      rfl
  · rintro ⟨hand, hor⟩ name hname v hv
    simp only [names, List.mem_cons, List.not_mem_nil, or_false] at hname
    rcases hname with rfl | rfl | rfl | rfl | rfl | rfl | rfl | rfl
    iterate 3
      obtain rfl := Option.some.inj hv
      exact Nat.zero_le n
    iterate 3
      obtain ⟨text, -, rfl⟩ := Option.map_eq_some_iff.mp hv
      exact Nat.zero_le n
    · obtain ⟨children, h, rfl⟩ := Option.map_eq_some_iff.mp hv
      exact hand children h
    · obtain ⟨children, h, rfl⟩ := Option.map_eq_some_iff.mp hv
      exact hor children h

/-- A written method holds no number that is not exact. -/
theorem exact_toJson (m : VerificationMethod) : m.toJson.Exact := by
  rw [toJson_eq]
  refine exact_membersOf fun name hname v hv => ?_
  simp only [names, List.mem_cons, List.not_mem_nil, or_false] at hname
  rcases hname with rfl | rfl | rfl | rfl | rfl | rfl | rfl | rfl
  iterate 3
    obtain rfl := Option.some.inj hv
    trivial
  iterate 3
    obtain ⟨text, -, rfl⟩ := Option.map_eq_some_iff.mp hv
    trivial
  iterate 2
    obtain ⟨children, -, rfl⟩ := Option.map_eq_some_iff.mp hv
    exact Policy.exact_listToJson children

end VerificationMethod

namespace Document

/-- The value of a relationship; an empty one is not written. -/
def references? (references : List String) : Option Json :=
  if references.isEmpty then none else some (.array (references.map .string))

/-- The value of a member of a document. -/
def member? (d : Document) : String → Option Json
  | "@context" => some (.array (d.context.map .string))
  | "id" => some (.string d.id)
  | "controller" => d.controller.map .string
  | "verificationMethod" =>
      some (.array (d.methods.map VerificationMethod.toJson))
  | "authentication" => references? d.relationships.authentication
  | "assertionMethod" => references? d.relationships.assertionMethod
  | "keyAgreement" => references? d.relationships.keyAgreement
  | "capabilityInvocation" => references? d.relationships.capabilityInvocation
  | "capabilityDelegation" => references? d.relationships.capabilityDelegation
  | _ => none

/-- The names of a document, in the order in which they are written. -/
def names : List String :=
  ["@context", "id", "controller", "verificationMethod", "authentication",
    "assertionMethod", "keyAgreement", "capabilityInvocation",
    "capabilityDelegation"]

/-- The names of a document in order. -/
def sortedNames : List String :=
  ["@context", "assertionMethod", "authentication", "capabilityDelegation",
    "capabilityInvocation", "controller", "id", "keyAgreement",
    "verificationMethod"]

/-- Takes a relationship from a document. -/
def takeReferences (d : Document) (r : Relationship) (record : Document) :
    Document :=
  { record with
    relationships := record.relationships.set r (d.relationships.get r) }

/-- Takes a field from a document. -/
def take (d : Document) (name : String) (record : Document) : Document :=
  match name with
  | "@context" => { record with context := d.context }
  | "id" => { record with id := d.id }
  | "controller" => { record with controller := d.controller }
  | "verificationMethod" => { record with methods := d.methods }
  | "authentication" => d.takeReferences .authentication record
  | "assertionMethod" => d.takeReferences .assertionMethod record
  | "keyAgreement" => d.takeReferences .keyAgreement record
  | "capabilityInvocation" => d.takeReferences .capabilityInvocation record
  | "capabilityDelegation" => d.takeReferences .capabilityDelegation record
  | _ => record

/-- A document is written as those of its members that it has. -/
theorem toJson_eq (d : Document) :
    d.toJson = object (membersOf d.member? names) := by
  obtain ⟨context, id, controller, methods, authentication, assertion,
      agreement, invocation,
    delegation⟩ := d
  cases controller <;> cases authentication <;> cases assertion <;>
    cases agreement <;>
    cases invocation <;> cases delegation <;> rfl

/-- The sorted names are the names in another order. -/
theorem sortedNames_perm : sortedNames.Perm names := by decide

/-- Arranging a written document picks an order of the names and arranges each
member. -/
theorem of_toJson (a : Arrangement) (d : Document) :
    a.of d.toJson =
      object (membersOf (fun name => (d.member? name).map a.of)
        (a.pick names sortedNames)) := by
  rw [toJson_eq]
  exact a.of_membersOf sortedNames_perm (by decide)

/-- A list of texts is read back. -/
theorem texts_tokens (a : Arrangement) (ss : List String) (limit : Nat)
    (rest : List Token) (hdepth : (array (ss.map string)).depth ≤ limit) :
    texts limit ((a.of (array (ss.map string))).tokens ++ rest) =
      .ok (ss, rest) :=
  items_arranged ss rest hdepth fun s _ _ _ rest => text_tokens a s rest

/-- A relationship is read by its field. -/
theorem relationshipField_reads (a : Arrangement) (d : Document)
    (r : Relationship) {depth : Nat} {w : Json} (record : Document)
    (rest : List Token) (hw : references? (d.relationships.get r) = some w)
    (hdepth : w.depth ≤ depth) :
    (relationshipField r).read depth record ((a.of w).tokens ++ rest) =
      .ok (d.takeReferences r record, rest) := by
  rw [references?] at hw
  split at hw
  · cases hw
  · obtain rfl := Option.some.inj hw
    exact Field.read_of (texts_tokens a _ depth rest hdepth)

/-- Each member of a document is read by its field. -/
theorem shape_reads (a : Arrangement) (d : Document) {depth : Nat}
    (hdepth : d.toJson.depth ≤ depth + 1) :
    shape.Reads depth (fun name => (d.member? name).map a.of)
      (a.pick names sortedNames) d.take := by
  intro name hname v hv
  obtain ⟨w, hw, rfl⟩ := Option.map_eq_some_iff.mp hv
  have hmem : name ∈ names := (a.pick_perm sortedNames_perm).mem_iff.mp hname
  have hlimit : w.depth ≤ depth := by
    have := depth_le_of_member hmem hw
    rw [toJson_eq] at hdepth
    exact Nat.le_trans this (Nat.le_of_succ_le_succ hdepth)
  have hrelated : ∀ r record rest,
      references? (d.relationships.get r) = some w →
      (relationshipField r).read depth record ((a.of w).tokens ++ rest) =
        .ok (d.takeReferences r record, rest) :=
    fun r record rest hr => relationshipField_reads a d r record rest hr hlimit
  simp only [names, List.mem_cons, List.not_mem_nil, or_false] at hmem
  rcases hmem with rfl | rfl | rfl | rfl | rfl | rfl | rfl | rfl | rfl
  · obtain rfl := Option.some.inj hw
    exact ⟨_, rfl, fun record rest =>
      Field.read_of (texts_tokens a _ depth rest hlimit)⟩
  · obtain rfl := Option.some.inj hw
    exact ⟨_, rfl, fun record rest => Field.read_of (text_tokens a d.id rest)⟩
  · obtain ⟨text, htext, rfl⟩ := Option.map_eq_some_iff.mp hw
    refine ⟨_, rfl, fun record rest => ?_⟩
    rw [Field.read_of (optional_text_tokens a text rest), ← htext]
    rfl
  · obtain rfl := Option.some.inj hw
    refine ⟨_, rfl, fun record rest => Field.read_of ?_⟩
    exact items_arranged d.methods rest hlimit fun m _ limit h rest =>
      m.read_tokens a limit rest h
  · exact ⟨_, rfl, fun record rest => hrelated .authentication record rest hw⟩
  · exact ⟨_, rfl, fun record rest => hrelated .assertionMethod record rest hw⟩
  · exact ⟨_, rfl, fun record rest => hrelated .keyAgreement record rest hw⟩
  · exact ⟨_, rfl, fun record rest =>
      hrelated .capabilityInvocation record rest hw⟩
  · exact ⟨_, rfl, fun record rest =>
      hrelated .capabilityDelegation record rest hw⟩

/-- Taking every field of a document makes the document. -/
theorem filled_take (a : Arrangement) (d : Document) :
    Shape.filled (fun name => (d.member? name).map a.of) d.take shape.blank
      (a.pick names sortedNames) = d := by
  obtain ⟨context, id, controller, methods, authentication, assertion,
      agreement, invocation,
    delegation⟩ := d
  cases a <;> cases controller <;> cases authentication <;> cases assertion <;>
    cases agreement <;> cases invocation <;> cases delegation <;> rfl

/-- The required fields of a document have a value. -/
theorem required (a : Arrangement) (d : Document) :
    ∀ field ∈ shape.fields, field.required = true →
      field.name ∈ a.pick names sortedNames ∧
        ((d.member? field.name).map a.of).isSome = true := by
  intro field hfield hrequired
  rw [(a.pick_perm sortedNames_perm).mem_iff]
  simp only [shape, Relationship.all, List.map_cons, List.map_nil,
    List.cons_append, List.nil_append, List.mem_cons, List.not_mem_nil,
    or_false] at hfield
  rcases hfield with rfl | rfl | rfl | rfl | rfl | rfl | rfl | rfl | rfl
  iterate 2 exact ⟨by decide, rfl⟩
  all_goals cases hrequired

/-- A document is read back from its tokens. -/
theorem read_tokens (a : Arrangement) (d : Document) (limit : Nat)
    (rest : List Token) (hdepth : d.toJson.depth ≤ limit) :
    shape.read limit ((a.of d.toJson).tokens ++ rest) = .ok (d, rest) := by
  cases limit with
  | zero =>
      rw [toJson_eq] at hdepth
      cases hdepth
  | succ depth =>
      have hnodup : (a.pick names sortedNames).Nodup :=
        (a.pick_perm sortedNames_perm).nodup_iff.mpr (by decide)
      have hread :=
        Shape.read_object rest (shape_reads a d hdepth) hnodup (required a d)
      rw [of_toJson, hread, filled_take]

/-- The members of a document are texts, lists of texts, and the list of its
methods. -/
theorem forall_member? {d : Document} {P : Json → Prop}
    (htext : ∀ s, P (string s))
    (htexts : ∀ ss : List String, P (array (ss.map string)))
    (hmethods : P (array (d.methods.map VerificationMethod.toJson))) :
    ∀ name ∈ names, ∀ v, d.member? name = some v → P v := by
  have hreferences : ∀ {references : List String} {v : Json},
      references? references = some v → P v := by
    intro references v hv
    rw [references?] at hv
    split at hv
    · cases hv
    · obtain rfl := Option.some.inj hv
      exact htexts references
  intro name hname v hv
  simp only [names, List.mem_cons, List.not_mem_nil, or_false] at hname
  rcases hname with rfl | rfl | rfl | rfl | h
  · obtain rfl := Option.some.inj hv
    exact htexts d.context
  · obtain rfl := Option.some.inj hv
    exact htext d.id
  · obtain ⟨text, -, rfl⟩ := Option.map_eq_some_iff.mp hv
    exact htext text
  · obtain rfl := Option.some.inj hv
    exact hmethods
  · rcases h with rfl | rfl | rfl | rfl | rfl <;> exact hreferences hv

/-- Only the methods of a document are nested deeper than lists of texts. -/
theorem depth_toJson_le_iff {d : Document} {n : Nat} :
    d.toJson.depth ≤ n + 2 ↔ ∀ m ∈ d.methods, m.toJson.depth ≤ n := by
  have hlist : (array (d.methods.map VerificationMethod.toJson)).depth ≤ n + 1 ↔
      ∀ m ∈ d.methods, m.toJson.depth ≤ n := by
    rw [depth, Nat.add_le_add_iff_right, itemsDepth_le_iff, List.forall_mem_map]
  rw [toJson_eq, depth, Nat.add_le_add_iff_right,
    membersDepth_membersOf_le_iff, ← hlist]
  constructor
  · exact fun hdepth => hdepth "verificationMethod" (by decide) _ rfl
  · refine fun hmethods =>
      forall_member? (fun _ => Nat.zero_le _) (fun ss => ?_) hmethods
    exact Nat.le_trans (depth_texts_le ss) (Nat.le_add_left 1 n)

/-- A written document holds no number that is not exact. -/
theorem exact_toJson (d : Document) : d.toJson.Exact := by
  rw [toJson_eq]
  refine exact_membersOf (forall_member? (fun _ => trivial) exact_texts ?_)
  refine exactItems_iff.mpr fun w hw => ?_
  obtain ⟨m, -, rfl⟩ := List.mem_map.mp hw
  exact m.exact_toJson

/-- A document that is not nested too deep is read back from its canonical
bytes. -/
theorem parse_canonicalBytes (d : Document)
    (hdepth : d.toJson.depth ≤ maxDepth) :
    parse d.canonicalBytes = .ok d := by
  have hread := d.read_tokens .normal maxDepth [] hdepth
  rw [List.append_nil] at hread
  exact readAll_canonicalBytes d.exact_toJson hread

/-- A document that is not nested too deep is read back from its text for
people. -/
theorem parse_pretty (d : Document) (hdepth : d.toJson.depth ≤ maxDepth) :
    parse (Utf8.encode d.pretty) = .ok d := by
  have hread := d.read_tokens .written maxDepth [] hdepth
  rw [List.append_nil] at hread
  exact readAll_pretty d.exact_toJson hread

end Document

end DidVault
