/-!
# Policies

A policy says which sets of keys together may act: one key, all of several
policies, or any one of several.
-/

namespace DidVault

/-- A condition on sets of references to keys. -/
inductive Policy where
  | key (reference : String)
  | all (children : List Policy)
  | any (children : List Policy)
  deriving Repr, BEq, Inhabited

namespace Policy

mutual

/-- The references of a policy, from left to right. -/
def references : Policy → List String
  | key r => [r]
  | all children => listReferences children
  | any children => listReferences children

/-- The references of a list of policies. -/
def listReferences : List Policy → List String
  | [] => []
  | child :: rest => references child ++ listReferences rest

end

mutual

/-- Whether a set of references satisfies a policy. -/
def satisfiedBy (present : List String) : Policy → Bool
  | key r => present.contains r
  | all children => allSatisfied present children
  | any children => anySatisfied present children

/-- Whether a set of references satisfies every policy of a list. -/
def allSatisfied (present : List String) : List Policy → Bool
  | [] => true
  | child :: rest => satisfiedBy present child && allSatisfied present rest

/-- Whether a set of references satisfies some policy of a list. -/
def anySatisfied (present : List String) : List Policy → Bool
  | [] => false
  | child :: rest => satisfiedBy present child || anySatisfied present rest

end

end Policy

end DidVault
