import DidVault.Did.Kinds
import DidVault.Did.Policy.Basic

/-!
# Policies in JSON

A key is its reference.  A policy of several parts is a record with an optional
type and exactly one of two conditions, each a list of policies.  Other members
are passed over, null stands for an absent condition, and the record may be
written as an array of its three fields.
-/

namespace DidVault.Policy

/-- The name of the condition that all parts hold. -/
def allName : String := "conditionAnd"

/-- The name of the condition that some part holds. -/
def anyName : String := "conditionOr"

mutual

/-- A policy in JSON. -/
def toJson : Policy → Json
  | key r => .string r
  | all children =>
    .object [("type", .string KeyType.conditional.name),
      (allName, .array (listToJson children))]
  | any children =>
    .object [("type", .string KeyType.conditional.name),
      (anyName, .array (listToJson children))]

/-- A list of policies in JSON. -/
def listToJson : List Policy → List Json
  | [] => []
  | child :: rest => toJson child :: listToJson rest

end

/-- What a policy is written as, before it is known to have exactly one
condition. -/
inductive Wire where
  | reference (r : String)
  | conditions (all any : Option (List Policy))

/-- The policy of what is written, which needs exactly one condition. -/
def Wire.policy : Wire → Except Json.Fault Policy
  | reference r => .ok (key r)
  | conditions (some children) none => .ok (all children)
  | conditions none (some children) => .ok (any children)
  | conditions (some _) (some _) => .error .bothConditions
  | conditions none none => .error .neitherCondition

/-- Whether a value is an absent type or a known one, which is written as in
`Json.variant`. -/
def isTypeOrNull : Json → Bool
  | .null => true
  | .string s => (KeyType.ofName? s).isSome
  | .object [(s, .null)] => (KeyType.ofName? s).isSome
  | _ => false

/-- The members of a record of conditions that have been read; each may come
once. -/
structure Conditions where
  typeSeen : Bool := false
  all : Option (Option (List Policy)) := none
  any : Option (Option (List Policy)) := none

/-- What is written by the conditions read. -/
def Conditions.wire (c : Conditions) : Wire :=
  .conditions (c.all.getD none) (c.any.getD none)

mutual

/-- What a value writes; nothing if it has no shape of a policy. -/
def wire? : Json → Option Wire
  | .string s => some (.reference s)
  | .array [] => some (.conditions none none)
  | .array [t] => if isTypeOrNull t then some (.conditions none none) else none
  | .array [t, a] =>
    if isTypeOrNull t then
      match condition? a with
      | some allParts => some (.conditions allParts none)
      | none => none
    else none
  | .array [t, a, o] =>
    if isTypeOrNull t then
      match condition? a, condition? o with
      | some allParts, some anyParts => some (.conditions allParts anyParts)
      | _, _ => none
    else none
  | .object members => (conditions? {} members).map Conditions.wire
  | _ => none

/-- The policies of the values of a list, if every one has the shape of a
policy. -/
def policies? : List Json → Option (List Policy)
  | [] => some []
  | item :: rest =>
    match wire? item, policies? rest with
    | some w, some children =>
      match w.policy with
      | .ok child => some (child :: children)
      | .error _ => none
    | _, _ => none

/-- The parts of a condition; null is an absent one. -/
def condition? : Json → Option (Option (List Policy))
  | .null => some none
  | .array items => (policies? items).map some
  | _ => none

/-- Reads the members of a record of conditions. -/
def conditions? (c : Conditions) : List (String × Json) → Option Conditions
  | [] => some c
  | (name, v) :: rest =>
    if name = "type" then
      if c.typeSeen || !isTypeOrNull v then none else
        conditions? { c with typeSeen := true } rest
    else if name = allName then
      match c.all, condition? v with
      | none, some allParts => conditions? { c with all := some allParts } rest
      | _, _ => none
    else if name = anyName then
      match c.any, condition? v with
      | none, some anyParts => conditions? { c with any := some anyParts } rest
      | _, _ => none
    else conditions? c rest

end

/-- The policy of a JSON value. -/
def ofJson (v : Json) : Except Json.Fault Policy :=
  match wire? v with
  | some w => w.policy
  | none => .error (.noShape "WireNode")

/-- Reads a policy. -/
def read (depth : Nat) : Json.Reader Policy := fun tokens => do
  let (v, rest) ← Json.value depth tokens
  let policy ← ofJson v
  return (policy, rest)

end DidVault.Policy
