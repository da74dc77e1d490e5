import DidVault.Did.Identifier

/-!
# Recovery policies

The recovery policy of an account asks for two keys, at least one of which is an
*anchor*: for every anchor there is a clause that needs it together with any
other key.  Keys that are no anchors only ever join in.

The policy is installed as a method of its own.  Its id is the hash of random
bytes, so that every installation has another id; one that was there before is
replaced.
-/

namespace DidVault

namespace Policy

/-- The elements of a list without repetitions, each where it came first. -/
def distinct : List String → List String
  | [] => []
  | r :: rest => r :: (distinct rest).filter (· != r)

/-- The clause of one anchor: the anchor, and any other key. -/
def clause (keys : List String) (anchor : String) : Policy :=
  .all [.key anchor, .any ((keys.filter (· != anchor)).map .key)]

/-- The policy over anchors and other keys. -/
def compose (anchors others : List String) : Except PolicyFault Policy :=
  let keys := distinct (anchors ++ others)
  if anchors.isEmpty then .error .noAnchor
  else if keys.length < 2 then .error (.tooFewKeys keys.length)
  else .ok (.any ((distinct anchors).map (clause keys)))

end Policy

namespace Identifier

/-- How many random bytes the id of a policy is made of. -/
def seedLength : Nat := 32

/-- The policy over anchors and other keys, all of which must be methods of the
identifier. -/
def recoveryPolicy (i : Identifier) (anchors others : List String) :
    Except DidError Policy :=
  match Policy.compose anchors others with
  | .error fault => .error (.policy fault)
  | .ok policy =>
    match policy.references.find? fun r => (i.method? r).isNone with
    | some r => .error (.policy (.unknownReference r))
    | none => .ok policy

/-- The id of the method that holds a policy. -/
def policyId (seed : Bytes) : String :=
  Names.keyStart ++ Address.keyHash seed ++
    Names.reference Names.recoveryFragment

/-- Installs a policy in place of any that was there. -/
def installPolicy (i : Identifier) (policy : Policy) (seed : Bytes) :
    Identifier :=
  let i := (i.removeFragment Names.recoveryFragment).1
  let node := VerificationMethod.holding (policyId seed)
    (Names.reference i.fragment) policy
  (i.insertMethod node none).relate .capabilityInvocation
    (Names.reference Names.recoveryFragment)

/-- The references of the methods of several kinds of credential. -/
def referencesOf (i : Identifier) (kinds : List Credential) : List String :=
  (kinds.flatMap i.methodsOf).filterMap VerificationMethod.reference?

/-- The references that a recovery policy anchors on. -/
def anchorReferences (i : Identifier) : List String :=
  i.referencesOf [.device, .binder]

/-- The references that only join in. -/
def coSignerReferences (i : Identifier) : List String :=
  i.referencesOf [.passwordOnDevice, .passwordOnBinder]

end Identifier

end DidVault
