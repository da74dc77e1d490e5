import DidVault.Did.Document.Basic
import DidVault.Error.Did

/-!
# Sound documents

`Document.validate` checks the subject, then the methods one by one in their
order, then the relationships, then the policies, and reports the first thing
that is wrong.
-/

namespace DidVault.Document

/-- The references of the methods of a document. -/
def methodReferences (d : Document) : List String :=
  d.methods.filterMap VerificationMethod.reference?

/-- Checks the methods one by one; `hashes` are those of the keys before. -/
def validateMethods (hashes : List String) :
    List VerificationMethod → Except DidError Unit
  | [] => .ok ()
  | m :: rest =>
    if !Text.beginsWith Names.keyStart m.id then
      .error (.document (.foreignMethod m.id))
    else if m.conditionAnd.isSome && m.conditionOr.isSome then
      .error (.document (.bothConditions m.id))
    else
      match m.materialHash? with
      | none =>
        if m.conditionAnd.isNone && m.conditionOr.isNone then
          .error (.missingKeyMaterial m.id)
        else validateMethods hashes rest
      | some hash =>
        if hash ∈ hashes then .error (.duplicateKey hash)
        else validateMethods (hash :: hashes) rest

/-- The first entry of a relationship that refers to no method. -/
def danglingReference? (d : Document) : Option DocumentFault :=
  d.relationships.named.findSome? fun (name, references) =>
    (references.find? (!d.methodReferences.contains ·)).map
      (.unknownReference name)

/-- The first reference of a policy that refers to no method. -/
def danglingPolicy? (d : Document) : Option DocumentFault :=
  d.methods.findSome? fun m =>
    ((m.policy?.map Policy.references).getD []).findSome? fun r =>
      if d.methodReferences.contains r then none else
        some (.unknownPolicyReference m.id r)

/-- Checks that a document is sound. -/
def validate (d : Document) : Except DidError Unit := do
  if !Text.beginsWith Names.spaceStart d.id then
    throw (.document (.foreignSubject d.id))
  if d.methods.isEmpty then throw (.document .noMethods)
  validateMethods [] d.methods
  match d.danglingReference? with
  | some fault => throw (.document fault)
  | none =>
    match d.danglingPolicy? with
    | some fault => throw (.document fault)
    | none => return ()

end DidVault.Document
