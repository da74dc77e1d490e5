import DidVault.Proofs.Did.Edits
import DidVault.Proofs.Did.Founded
import DidVault.Proofs.Did.Url.Reading
import DidVault.Proofs.Text.Cut

/-!
# Removed methods

Methods are selected by a text in their ids or by their fragment.  Exactly the
selected ones are removed, and with them the references to them
(`Identifier.Left`).

The method-specific identifier is derived anew even if nothing is selected.
That changes nothing, unless the identifier was read from a text and has never
had a method: what was read is lost then (`Obtained.unchanged_iff_of_removal`).
-/

namespace DidVault

open IssueM Identifier

/-- Which methods are to be removed. -/
inductive Selection where
  /-- Those whose ids hold a text. -/
  | holding (part : String)
  /-- Those of a fragment, which may be given with its hash. -/
  | fragment (name : String)

namespace Selection

/-- The method is one of those that are to be removed. -/
def Selects : Selection → VerificationMethod → Prop
  | holding part, m => part.toList <:+: m.id.toList
  | fragment name, m => m.fragment? = some (Text.withoutLeading '#' name)

instance (s : Selection) : DecidablePred s.Selects :=
  match s with
  | holding part =>
      fun m => inferInstanceAs (Decidable (part.toList <:+: m.id.toList))
  | fragment name => fun m =>
    inferInstanceAs
      (Decidable (m.fragment? = some (Text.withoutLeading '#' name)))

/-- Removes the methods from an identifier, and counts them. -/
def remove (i : Identifier) : Selection → Identifier × Nat
  | holding part => i.removeHolding part
  | fragment name => i.removeFragment name

/-- The operation tests each method for being selected. -/
theorem remove_eq (s : Selection) (i : Identifier) :
    s.remove i = i.removeWhere fun m => decide (s.Selects m) := by
  cases s with
  | holding part =>
      refine congrArg i.removeWhere (funext fun m => Bool.eq_iff_iff.mpr ?_)
      rw [decide_eq_true_iff]
      exact Text.holds_iff
  | fragment name =>
      refine congrArg i.removeWhere (funext fun m => Bool.eq_iff_iff.mpr ?_)
      rw [decide_eq_true_iff]
      exact beq_iff_eq

end Selection

/-- An identifier without selected methods: the others are left in their order,
and so are, in every relationship, the references that none of the removed
methods has.  Nothing else changes but the method-specific identifier, which is
derived from what is left. -/
structure Identifier.Left (i : Identifier) (s : Selection) (left : Identifier) :
    Prop where
  methods : left.methods = i.methods.filter fun m => ¬ s.Selects m
  references : ∀ r,
  left.relationships.get r = (i.relationships.get r).filter fun reference =>
    ∀ m ∈ i.methods, s.Selects m → m.reference? ≠ some reference
  id : left.url.id = left.derivedId
  rest : left = { i with
    url := { i.url with id := left.url.id }
    methods := left.methods
    relationships := left.relationships }

/-- What an identifier is made of at first. -/
inductive Origin where
  | blank
  | text (text : String)
  | document (d : Document)

/-- The identifiers that edits lead to from an origin, each edit at any desk and
with any outcome. -/
inductive Obtained : Origin → Identifier → Prop where
  | new : Obtained .blank .new
  | parse {text : String} {i : Identifier}
    (hparse : Identifier.parse text = .ok i) :
      Obtained (.text text) i
  | ofDocument {d : Document} {i : Identifier}
    (hi : Identifier.ofDocument d = .ok i) :
      Obtained (.document d) i
  | edit {o : Origin} {e : Edit} {i i' : Identifier} {d d' : Desk}
      {r : Except Error Unit} (hobtained : Obtained o i)
      (hrun : Runs e.run (i, d) r (i', d')) : Obtained o i'

namespace Identifier

variable {i : Identifier} {gone : VerificationMethod → Bool}

/-- Where there is nothing to remove, the method-specific identifier is derived
all the same. -/
theorem removeWhere_of_none (hnone : ∀ m ∈ i.methods, gone m = false) :
    (i.removeWhere gone).1 = i.refresh := by
  have hmethods : i.methods.filter (!gone ·) = i.methods :=
    List.filter_eq_self.mpr fun m hm => by rw [hnone m hm]; rfl
  have hlists : i.relationships.map (·.filter
      (!((i.methods.filter gone).filterMap
        VerificationMethod.reference?).contains ·)) = i.relationships := by
    have hgone : i.methods.filter gone = [] :=
      List.filter_eq_nil_iff.mpr fun m hm => by
        rw [hnone m hm]; exact Bool.false_ne_true
    have hkept : ∀ references : List String,
        references.filter (!([] : List String).contains ·) = references :=
          fun references => List.filter_eq_self.mpr fun _ _ => rfl
    rw [hgone, List.filterMap_nil]
    simp only [Relationships.map, hkept]
  show refresh { i with methods := _, relationships := _ } = _
  rw [hmethods, hlists]

/-- Without methods the id-string is empty. -/
theorem derivedId_of_bare (hbare : i.methods = []) : i.derivedId = "" := by
  exact (derivedId_congr hbare : i.derivedId = Identifier.new.derivedId)

/-- Deriving the method-specific identifier anew shows in the identifier, its
DID and its text, if at all. -/
theorem refresh_eq_iff (i : Identifier) :
    (i.refresh = i ↔ i.url.id = i.derivedId) ∧
      (i.refresh.did = i.did ↔ i.url.id = i.derivedId) ∧
      (i.refresh.display = i.display ↔ i.url.id = i.derivedId) := by
  have hsame (h : i.url.id = i.derivedId) : i.refresh = i := by
    rw [refresh, ← h]
  refine ⟨⟨fun h => ?_, hsame⟩, ⟨fun h => ?_, fun h => congrArg did (hsame h)⟩,
    ⟨fun h => ?_, fun h => congrArg display (hsame h)⟩⟩
  · exact (congrArg (·.url.id) h).symm
  · have hchars := congrArg String.toList h
    simp only [did, String.toList_append] at hchars
    exact (String.toList_inj.mp
      (List.append_cancel_left (List.append_cancel_right hchars))).symm
  · rw [DidUrl.display_eq_render, DidUrl.display_eq_render] at h
    have hchars := congrArg String.toList h
    simp only [DidUrl.render, String.toList_append] at hchars
    exact (String.toList_inj.mp
      (List.append_cancel_left (List.append_cancel_right hchars))).symm

end Identifier

namespace Obtained

variable {o : Origin} {i : Identifier}

/-- Every change of the methods derives the method-specific identifier from
them. -/
theorem stable_derived (c : Prop) :
    Stable fun i => i.url.id = i.derivedId ∨ (c ∧ i.methods = []) where
  publish _ _ _ _ _ _ _ _ := .inl rfl
  remove _ _ := .inl rfl
  install _ _ _ _ := .inl rfl
  relate _ _ h _ := h

/-- The method-specific identifier is the derived one, except where it was read
and there are no methods. -/
theorem derived (hobtained : Obtained o i) :
    i.url.id = i.derivedId ∨ ((∃ text, o = .text text) ∧ i.methods = []) := by
  induction hobtained with
  | new => exact .inl rfl
  | @parse text i hparse =>
      refine .inr ⟨⟨text, rfl⟩, ?_⟩
      unfold Identifier.parse at hparse
      split at hparse
      · cases hparse
        rfl
      · cases hparse
  | ofDocument hi => exact .inl (ofDocument_iff.mp hi).2.1.symm
  | edit _ hrun ih =>
      exact Edit.kept (stable_derived _) _ (fun _ _ _ _ hi => hi) hrun ih

/-- Exactly the selected methods are removed and counted, and with them the
references to them.  If none is selected, the identifier, its DID and its text
stay the same, unless the method-specific identifier was read from a text and
there are no methods that it could be derived from. -/
theorem unchanged_iff_of_removal (hobtained : Obtained o i) (s : Selection) :
    i.Left s (s.remove i).1 ∧ (s.remove i).2 = i.methods.countP (s.Selects ·) ∧
      ((∀ m ∈ i.methods, ¬ s.Selects m) →
        ((s.remove i).1 = i ↔ (i.methods = [] → i.url.id = "")) ∧
        ((s.remove i).1.did = i.did ↔ (i.methods = [] → i.url.id = "")) ∧
        ((s.remove i).1.display = i.display ↔
          (i.methods = [] → i.url.id = "")) ∧
        ((∀ text, o ≠ .text text) → (s.remove i).1 = i)) := by
  rw [s.remove_eq]
  have hleft : i.Left s (i.removeWhere fun m => decide (s.Selects m)).1 := by
    refine ⟨?_, fun r => ?_, rfl, rfl⟩
    · rw [methods_removeWhere]
      simp only [decide_not]
    · rw [get_removeWhere]
      simp only [decide_eq_true_iff]
  refine ⟨hleft, List.countP_eq_length_filter.symm, fun hnone => ?_⟩
  have hrefresh : (i.removeWhere fun m => decide (s.Selects m)).1 = i.refresh :=
    removeWhere_of_none fun m hm => decide_eq_false (hnone m hm)
  have hderived : i.url.id = i.derivedId ↔
      (i.methods = [] → i.url.id = "") := by
    rcases hobtained.derived with hsame | ⟨-, hbare⟩
    · refine iff_of_true hsame fun hbare => ?_
      rw [hsame, derivedId_of_bare hbare]
    · rw [derivedId_of_bare hbare]
      exact ⟨fun h _ => h, fun h => h hbare⟩
  obtain ⟨hwhole, hdid, hdisplay⟩ := refresh_eq_iff i
  rw [hrefresh, ← hderived]
  refine ⟨hwhole, hdid, hdisplay, fun htext => hwhole.mpr ?_⟩
  exact hobtained.derived.resolve_right fun h => h.1.elim htext

/-- What was read from a text is lost where a method is to be removed that is
not there; an identifier that has a method stays as it is. -/
theorem unchanged_iff_of_read_and_of_new :
    (∃ i, Obtained (.text "did:aospace:1AbC#did0") i ∧
      i.did = "did:aospace:1AbC#did0" ∧
        ((Selection.fragment "#key-0").remove i).2 = 0 ∧
        ((Selection.fragment "#key-0").remove i).1.did ≠ i.did) ∧
      ∃ i, Obtained .blank i ∧ i.methods.length = 1 ∧
        ((Selection.fragment "key-1").remove i).1 = i := by
  constructor
  · let i : Identifier := { Identifier.new with
      url := ⟨Names.spaceMethod, "1AbC", [], [], none, some "did0"⟩ }
    have hurl : DidUrl.parse "did:aospace:1AbC#did0" = .ok i.url := by
      decide +kernel
    have hparse : Identifier.parse "did:aospace:1AbC#did0" = .ok i := by
      rw [Identifier.parse, hurl]
    have hread := Obtained.parse hparse
    obtain ⟨-, hcount, hunchanged⟩ :=
      unchanged_iff_of_removal hread (.fragment "#key-0")
    obtain ⟨-, hdid, -, -⟩ := hunchanged nofun
    refine ⟨i, hread, by decide, hcount, fun h => ?_⟩
    exact absurd (hdid.mp h rfl) (by decide)
  · let d := Desk.bare []
    let m : VerificationMethod :=
      .publishing (methodId "pem" "" "key-0") .rsa "#did0" "pem"
    let i : Identifier := Identifier.new.insertMethod m none
    have hadded :
        Runs (Edit.addMethod .rsa "pem" "" "key-0" none).run (.new, d)
          (.ok ()) (i, d) :=
      rfl
    have hobtained := Obtained.new.edit hadded
    have hother : ∀ b ∈ i.methods,
        ¬ (Selection.fragment "key-1").Selects b := by
      intro b hb
      obtain rfl : b = m := List.mem_singleton.mp hb
      have hfragment := Issuing.fragment?_methodId "pem" "" "key-0" (by decide)
      intro hselected
      have hsame := hfragment.symm.trans hselected
      revert hsame
      decide
    obtain ⟨-, -, hunchanged⟩ :=
      unchanged_iff_of_removal hobtained (.fragment "key-1")
    obtain ⟨-, -, -, hnew⟩ := hunchanged hother
    exact ⟨i, hobtained, rfl, hnew nofun⟩

end Obtained

end DidVault
