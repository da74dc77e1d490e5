import DidVault.Proofs.Did.Founded
import DidVault.Proofs.Json.Nesting

/-!
# Documents in the reader's reach

A document is read back from its texts if it is nested no deeper than the reader
allows.  That is so of every document that was read, whatever text it was read
from (`Document.yields_read`), since a policy is nested no deeper than the value
that it was read from, and of every document that is taken from an identifier
(`Identifier.Made`), since what an identifier publishes and the policies that
are composed on it are not nested deep.
-/

namespace DidVault

open Json

namespace Policy

/-- No condition that was read is nested as deep as `n`. -/
def Wire.Within (n : Nat) : Wire → Prop
  | reference _ => True
  | conditions allParts anyParts =>
      (∀ children ∈ allParts, (array (listToJson children)).depth < n) ∧
        ∀ children ∈ anyParts, (array (listToJson children)).depth < n

/-- No condition that has been read so far is nested deeper than `n`. -/
structure Conditions.Within (n : Nat) (c : Conditions) : Prop where
  all : ∀ children, c.all = some (some children) →
    (array (listToJson children)).depth ≤ n
  any : ∀ children, c.any = some (some children) →
    (array (listToJson children)).depth ≤ n

/-- Where no condition has been read, none is nested too deep. -/
theorem Conditions.within_blank (n : Nat) : Within n {} where
  all := nofun
  any := nofun

/-- A record of conditions is one level of its own. -/
theorem Conditions.Within.wire {n : Nat} {c : Conditions}
    (hwithin : c.Within n) :
    c.wire.Within (n + 1) := by
  have hgiven :
      ∀ {parts : Option (Option (List Policy))} {children : List Policy},
      children ∈ parts.getD none → parts = some (some children) := by
    rintro (_ | _ | parts) children h
    · cases h
    · cases h
    · rw [Option.mem_some.mp h]
  exact ⟨fun children h => Nat.lt_succ_of_le (hwithin.all children (hgiven h)),
    fun children h => Nat.lt_succ_of_le (hwithin.any children (hgiven h))⟩

/-- A policy is nested no deeper than what it was written as. -/
theorem Wire.Within.policy {n : Nat} {w : Wire} {p : Policy}
    (hwithin : w.Within n) (hpolicy : w.policy = .ok p) :
    p.toJson.depth ≤ n := by
  have hcondition : ∀ (name : String) (children : List Policy),
      (array (listToJson children)).depth < n →
        (object [("type", string KeyType.conditional.name),
          (name, array (listToJson children))]).depth ≤ n := by
    intro name children h
    simp only [depth, membersDepth] at h ⊢
    omega
  cases w with
  | reference r =>
      obtain rfl := Except.ok.inj hpolicy
      exact Nat.zero_le n
  | conditions all any =>
      cases all with
      | none =>
          cases any with
          | none => cases hpolicy
          | some children =>
              obtain rfl := Except.ok.inj hpolicy
              exact hcondition anyName children (hwithin.2 children rfl)
      | some children =>
          cases any with
          | none =>
              obtain rfl := Except.ok.inj hpolicy
              exact hcondition allName children (hwithin.1 children rfl)
          | some _ => cases hpolicy

mutual

/-- What a value writes is nested no deeper than the value. -/
theorem within_wire? {v : Json} {w : Wire} (hwire : wire? v = some w) :
    w.Within v.depth := by
  match v with
  | .string s =>
      rw [wire?] at hwire
      obtain rfl := Option.some.inj hwire
      trivial
  | .array [] =>
      rw [wire?] at hwire
      obtain rfl := Option.some.inj hwire
      exact ⟨nofun, nofun⟩
  | .array [t] =>
      rw [wire?] at hwire
      split at hwire
      · obtain rfl := Option.some.inj hwire
        exact ⟨nofun, nofun⟩
      · cases hwire
  | .array [t, x] =>
      rw [wire?] at hwire
      split at hwire
      · split at hwire
        · next allParts hall =>
            obtain rfl := Option.some.inj hwire
            refine ⟨fun children h => ?_, nofun⟩
            have hx := depth_condition? (h ▸ hall)
            simp only [depth, itemsDepth] at hx ⊢
            omega
        · cases hwire
      · cases hwire
  | .array [t, x, y] =>
      rw [wire?] at hwire
      split at hwire
      · split at hwire
        · next allParts anyParts hall hany =>
            obtain rfl := Option.some.inj hwire
            refine ⟨fun children h => ?_, fun children h => ?_⟩
            · have hx := depth_condition? (h ▸ hall)
              simp only [depth, itemsDepth] at hx ⊢
              omega
            · have hy := depth_condition? (h ▸ hany)
              simp only [depth, itemsDepth] at hy ⊢
              omega
        · cases hwire
      · cases hwire
  | .object members =>
      rw [wire?] at hwire
      obtain ⟨c, hc, rfl⟩ := Option.map_eq_some_iff.mp hwire
      exact (within_conditions? (Conditions.within_blank _)
        (Nat.le_refl _) hc).wire

/-- The policies of a list are nested no deeper than the values of the list. -/
theorem depth_policies? {items : List Json} {children : List Policy}
    (hchildren : policies? items = some children) :
    itemsDepth (listToJson children) ≤ itemsDepth items := by
  match items with
  | [] =>
      rw [policies?] at hchildren
      obtain rfl := Option.some.inj hchildren
      exact Nat.le_refl 0
  | item :: rest =>
      rw [policies?] at hchildren
      split at hchildren
      · next w more hw hmore =>
          split at hchildren
          · next child hchild =>
              obtain rfl := Option.some.inj hchildren
              have hitem := (within_wire? hw).policy hchild
              have hrest := depth_policies? hmore
              rw [listToJson, itemsDepth, itemsDepth]
              omega
          · cases hchildren
      · cases hchildren

/-- A condition that is read was at least as deep as what is written for it. -/
theorem depth_condition? {v : Json} {children : List Policy}
    (hcondition : condition? v = some (some children)) :
    (array (listToJson children)).depth ≤ v.depth := by
  match v with
  | .null =>
      rw [condition?] at hcondition
      cases hcondition
  | .array items =>
      rw [condition?] at hcondition
      obtain ⟨parts, hparts, hsome⟩ := Option.map_eq_some_iff.mp hcondition
      obtain rfl := Option.some.inj hsome
      exact Nat.succ_le_succ (depth_policies? hparts)

/-- Each member of a record of conditions keeps the bound of what has been
read. -/
theorem within_conditions? {n : Nat} {c c' : Conditions}
    {members : List (String × Json)} (hwithin : c.Within n)
    (hmembers : membersDepth members ≤ n)
    (hread : conditions? c members = some c') : c'.Within n := by
  match members with
  | [] =>
      rw [conditions?] at hread
      obtain rfl := Option.some.inj hread
      exact hwithin
  | (name, v) :: rest =>
      rw [membersDepth] at hmembers
      have hrest : membersDepth rest ≤ n := by omega
      rw [conditions?] at hread
      split at hread
      · split at hread
        · cases hread
        · have hnext : Conditions.Within n { c with typeSeen := true } :=
            ⟨hwithin.all, hwithin.any⟩
          exact within_conditions? hnext hrest hread
      · split at hread
        · split at hread
          · next allParts _ hall =>
              have hnext :
                  Conditions.Within n { c with all := some allParts } := by
                refine ⟨fun children h => ?_, hwithin.any⟩
                obtain rfl := Option.some.inj h
                have hv := depth_condition? hall
                omega
              exact within_conditions? hnext hrest hread
          · cases hread
        · split at hread
          · split at hread
            · next anyParts _ hany =>
                have hnext :
                    Conditions.Within n { c with any := some anyParts } := by
                  refine ⟨hwithin.all, fun children h => ?_⟩
                  obtain rfl := Option.some.inj h
                  have hv := depth_condition? hany
                  omega
                exact within_conditions? hnext hrest hread
            · cases hread
          · exact within_conditions? hwithin hrest hread

end

/-- A policy that is read was at least as deep as what is written for it. -/
theorem depth_ofJson_le {v : Json} {p : Policy} (hread : ofJson v = .ok p) :
    p.toJson.depth ≤ v.depth := by
  unfold ofJson at hread
  split at hread
  · next w hwire => exact (within_wire? hwire).policy hread
  · cases hread

/-- No policy is nested deeper than its reader allows. -/
theorem yields_read (limit : Nat) :
    Yields (read limit) fun p => p.toJson.depth ≤ limit := by
  intro ts p rest hread
  unfold read at hread
  cases hvalue : value limit ts with
  | error fault =>
      rw [hvalue] at hread
      cases hread
  | ok taken =>
      rw [hvalue] at hread
      change (ofJson taken.1 >>= fun policy => pure (policy, taken.2)) = _
        at hread
      cases hpolicy : ofJson taken.1 with
      | error fault =>
          rw [hpolicy] at hread
          cases hread
      | ok policy =>
          rw [hpolicy] at hread
          cases hread
          exact Nat.le_trans (depth_ofJson_le hpolicy)
            (yields_value limit hvalue)

end Policy

namespace VerificationMethod

/-- No method is nested deeper than its reader allows. -/
theorem yields_read (limit : Nat) :
    Yields (read limit) fun m => m.toJson.depth ≤ limit := by
  cases limit with
  | zero => exact Shape.yields_read_zero
  | succ limit =>
      refine Shape.yields_read (Nat.succ_le_succ (Nat.zero_le _))
        fun field hfield m hm => ?_
      have hkept := depth_toJson_le_iff.mp hm
      have hconditions := (yields_items Policy.yields_read limit).optional
        (fun parts => ∀ children, parts = some children →
          (array (Policy.listToJson children)).depth ≤ limit) nofun ?_
      · simp only [shape, List.mem_cons, List.not_mem_nil, or_false] at hfield
        rcases hfield with rfl | rfl | rfl | rfl | rfl | rfl | rfl | rfl
        iterate 6
          exact Field.yields_of (Yields.trivial _) fun _ _ =>
            depth_toJson_le_iff.mpr hkept
        · exact Field.yields_of hconditions fun _ h =>
            depth_toJson_le_iff.mpr ⟨h, hkept.2⟩
        · exact Field.yields_of hconditions fun _ h =>
            depth_toJson_le_iff.mpr ⟨hkept.1, h⟩
      · intro children hdepth children' h
        obtain rfl := Option.some.inj h
        rw [Policy.listToJson_eq]
        exact hdepth

end VerificationMethod

namespace Document

/-- No document is nested deeper than its reader allows. -/
theorem yields_read (limit : Nat) :
    Yields (shape.read (limit + 2)) fun d => d.toJson.depth ≤ limit + 2 := by
  refine Shape.yields_read (depth_toJson_le_iff.mpr nofun)
    fun field hfield d hd => ?_
  have hkept := depth_toJson_le_iff.mp hd
  simp only [shape, Relationship.all, List.map_cons, List.map_nil,
    List.cons_append, List.nil_append, List.mem_cons, List.not_mem_nil,
    or_false] at hfield
  rcases hfield with rfl | rfl | rfl | rfl | h
  iterate 3
    exact Field.yields_of (Yields.trivial _) fun _ _ =>
      depth_toJson_le_iff.mpr hkept
  · refine Field.yields_of (yields_items VerificationMethod.yields_read _)
      fun methods h => ?_
    have hitems := itemsDepth_le_iff.mp (Nat.le_of_succ_le_succ h)
    exact depth_toJson_le_iff.mpr (List.forall_mem_map.mp hitems)
  · rcases h with rfl | rfl | rfl | rfl | rfl
    all_goals exact Field.yields_of (Yields.trivial _) fun _ _ =>
      depth_toJson_le_iff.mpr hkept

/-- A document that was read is in the reader's reach. -/
theorem depth_of_parse {bytes : Bytes} {d : Document}
    (hparse : parse bytes = .ok d) :
    d.toJson.depth ≤ maxDepth := by
  unfold parse readAll at hparse
  split at hparse
  · cases hparse
  · next hread =>
      cases hparse
      exact yields_read 125 hread
  · cases hparse

/-- Documents with the same canonical bytes are the same, however deep they are
nested. -/
theorem eq_of_canonicalBytes {d e : Document}
    (hbytes : d.canonicalBytes = e.canonicalBytes) : d = e := by
  have htokens : ∀ d : Document,
      Token.scan d.canonicalBytes = (Arrangement.normal.of d.toJson).tokens :=
    fun d => scan_render _ (exact_sorted d.toJson d.exact_toJson)
  have hread : ∀ d : Document, ∀ limit, d.toJson.depth ≤ limit →
      shape.read limit (Token.scan d.canonicalBytes) = .ok (d, []) := by
    intro d limit hdepth
    rw [htokens, ← List.append_nil (Json.tokens _)]
    exact d.read_tokens .normal limit [] hdepth
  have hd := hread d (max d.toJson.depth e.toJson.depth) (Nat.le_max_left ..)
  have he := hread e (max d.toJson.depth e.toJson.depth) (Nat.le_max_right ..)
  rw [hbytes, he] at hd
  exact (congrArg Prod.fst (Except.ok.inj hd)).symm

/-- Both texts of a document are read back to it. -/
def ReadBack (d : Document) : Prop :=
  parse d.canonicalBytes = .ok d ∧ parse (Utf8.encode d.pretty) = .ok d

/-- A document that is not nested too deep is read back. -/
theorem readBack_of_depth {d : Document} (hdepth : d.toJson.depth < 128) :
    d.ReadBack :=
  ⟨d.parse_canonicalBytes (Nat.le_of_lt_succ hdepth),
    d.parse_pretty (Nat.le_of_lt_succ hdepth)⟩

end Document

namespace Identifier

/-- The identifiers that come of a new one, of one that was read, or of a
document in the reader's reach, by publishing and removing methods, relating
them, and installing composed policies. -/
inductive Made : Identifier → Prop where
  | new : Made .new
  | read {text : String} {i : Identifier}
    (hread : Identifier.parse text = .ok i) : Made i
  | taken {d : Document} {i : Identifier}
      (hdepth : d.toJson.depth < 128) (htaken : ofDocument d = .ok i) : Made i
  | published {i i' : Identifier} {keyType : KeyType}
      {pem query fragment id : String} {index : Option Nat} (hmade : Made i)
      (hpublished : i.addMethod keyType pem query fragment index =
        .ok (i', id)) : Made i'
  | related {i : Identifier} (r : Relationship) (reference : String)
    (hmade : Made i) :
      Made (i.relate r reference)
  | removedHolding {i : Identifier} (part : String) (hmade : Made i) :
    Made (i.removeHolding part).1
  | removedFragment {i : Identifier} (fragment : String) (hmade : Made i) :
      Made (i.removeFragment fragment).1
  | recovered {i : Identifier} {anchors others : List String} {policy : Policy}
      (seed : Bytes) (hmade : Made i)
      (hpolicy : i.recoveryPolicy anchors others = .ok policy) :
      Made (i.installPolicy policy seed)

variable {i : Identifier} {n : Nat}

/-- What the other methods are and what the new one is, all methods are. -/
theorem forall_mem_insertMethod {P : VerificationMethod → Prop}
    {m : VerificationMethod} (index : Option Nat)
    (hmethods : ∀ b ∈ i.methods, P b) (hm : P m) :
    ∀ b ∈ (i.insertMethod m index).methods, P b := by
  cases index with
  | none =>
      exact List.forall_mem_append.mpr
        ⟨hmethods, List.forall_mem_singleton.mpr hm⟩
  | some n =>
      refine List.forall_mem_append.mpr
        ⟨fun b hb => hmethods b (List.mem_of_mem_take hb), ?_⟩
      exact List.forall_mem_cons.mpr
        ⟨hm, fun b hb => hmethods b (List.mem_of_mem_drop hb)⟩

/-- What holds of all methods holds of those that remain. -/
theorem forall_mem_removeWhere {P : VerificationMethod → Prop}
    (gone : VerificationMethod → Bool) (hmethods : ∀ b ∈ i.methods, P b) :
    ∀ b ∈ (i.removeWhere gone).1.methods, P b :=
  fun b hb => hmethods b (List.mem_filter.mp hb).1

/-- A composed policy is not nested deep. -/
theorem shallow_recovery {anchors others : List String} {policy : Policy}
    (id controller : String)
    (hpolicy : i.recoveryPolicy anchors others = .ok policy) :
    (VerificationMethod.holding id controller policy).Shallow := by
  rw [Policy.compose_ok (recoveryPolicy_ok hpolicy)]
  refine VerificationMethod.shallow_holding _ _ fun p hp => ?_
  obtain ⟨anchor, -, rfl⟩ := List.mem_map.mp hp
  exact Policy.depth_clause_le _ anchor

/-- A made identifier's methods leave three levels for the document around
them. -/
theorem Made.depth_methods_le (hmade : i.Made) :
    ∀ m ∈ i.methods, m.toJson.depth ≤ 125 := by
  have hshallow : ∀ {m : VerificationMethod}, m.Shallow →
      m.toJson.depth ≤ 125 :=
    fun h => Nat.le_trans h (by decide)
  induction hmade with
  | new => exact nofun
  | read hread =>
      unfold Identifier.parse at hread
      split at hread
      · obtain rfl := Except.ok.inj hread
        exact nofun
      · cases hread
  | taken hdepth htaken =>
      rw [methods_ofDocument htaken]
      exact Document.depth_toJson_le_iff.mp (Nat.le_of_lt_succ hdepth)
  | published _ hpublished ih =>
      unfold addMethod at hpublished
      dsimp only at hpublished
      split at hpublished
      · cases hpublished
      · cases hpublished
        exact forall_mem_insertMethod _ ih
          (hshallow (VerificationMethod.shallow_publishing ..))
  | related r reference _ ih => exact ih
  | removedHolding part _ ih => exact forall_mem_removeWhere _ ih
  | removedFragment fragment _ ih => exact forall_mem_removeWhere _ ih
  | recovered seed _ hpolicy ih =>
      rw [methods_installPolicy]
      refine List.forall_mem_append.mpr
        ⟨fun b hb => ih b (List.mem_filter.mp hb).1, ?_⟩
      exact List.forall_mem_singleton.mpr
        (hshallow (shallow_recovery _ _ hpolicy))

/-- The document of an identifier is in the reader's reach. -/
theorem Made.depth_toDocument_lt (hmade : i.Made) :
    i.toDocument.toJson.depth < 128 :=
  Nat.lt_succ_of_le (Document.depth_toJson_le_iff.mpr hmade.depth_methods_le)

end Identifier

namespace Document

/-- A document in the reader's reach is read back from its canonical bytes and
from its text for people; every document that was read is in reach, and so is
every document of an identifier. Documents have the same canonical bytes only if
they are the same, and exactly the canonical bytes of documents in reach are
those that are read to a document with these canonical bytes. -/
theorem readBack :
    (∀ d : Document, d.toJson.depth < 128 → d.ReadBack) ∧
      (∀ bytes d, parse bytes = .ok d → d.toJson.depth < 128 ∧ d.ReadBack) ∧
      (∀ i : Identifier, i.Made → i.toDocument.toJson.depth < 128 ∧
        i.toDocument.ReadBack) ∧
      (∀ d e : Document, d.canonicalBytes = e.canonicalBytes ↔ d = e) ∧
      ∀ bytes,
        (∃ d : Document, d.toJson.depth < 128 ∧ d.canonicalBytes = bytes) ↔
          ∃ d, parse bytes = .ok d ∧ d.canonicalBytes = bytes := by
  refine ⟨fun d => readBack_of_depth, fun bytes d hparse =>
    ?_, fun i hmade => ?_,
      fun d e => ⟨eq_of_canonicalBytes, congrArg canonicalBytes⟩,
        fun bytes => ⟨?_, ?_⟩⟩
  · have hdepth := Nat.lt_succ_of_le (depth_of_parse hparse)
    exact ⟨hdepth, readBack_of_depth hdepth⟩
  · exact ⟨hmade.depth_toDocument_lt,
      readBack_of_depth hmade.depth_toDocument_lt⟩
  · rintro ⟨d, hdepth, rfl⟩
    exact ⟨d, (readBack_of_depth hdepth).1, rfl⟩
  · rintro ⟨d, hparse, hbytes⟩
    exact ⟨d, Nat.lt_succ_of_le (depth_of_parse hparse), hbytes⟩

/-- A document with a policy inside a policy, and with absent, empty and given
members. -/
def nested : Document where
  context := []
  id := "did:aospace:clé#did0"
  methods := [
    { id := "did:aospacekey:a#key-0", keyType := .rsa, controller := "",
      publicKeyBase58 := "" },
    { id := "did:aospacekey:b#node-0", keyType := .conditional,
      controller := "#did0"
      conditionAnd := some [], conditionOr :=
        some [.key "#key-0", .all [.any [], .key "\n"]] }]
  relationships := { keyAgreement := ["#key-0", ""] }

/-- The example is read back, with the policy inside its policy. -/
theorem readBack_nested : nested.toJson.depth < 128 ∧ nested.ReadBack :=
  ⟨by decide, readBack.1 nested (by decide)⟩

end Document

end DidVault
