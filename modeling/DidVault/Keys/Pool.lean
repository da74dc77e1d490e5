import DidVault.Rsa.Generate

/-!
# Keys made in advance

Making a pair of keys takes long.  A pool holds at most one pair for each
purpose, which is made ahead of time and given away once.
-/

namespace DidVault

/-- What a pair of keys is for. -/
inductive KeyPurpose where
  /-- The account's own key. -/
  | space
  /-- The key behind the account's password. -/
  | password
  deriving Repr, DecidableEq

namespace KeyPurpose

/-- Every purpose, in the order in which a pool is filled. -/
def all : List KeyPurpose := [space, password]

/-- The name of a purpose. -/
def name : KeyPurpose → String
  | space => "space"
  | password => "password"

/-- The purpose of a name. -/
def ofName? (s : String) : Option KeyPurpose :=
  all.find? (·.name == s)

end KeyPurpose

/-- At most one waiting pair for each purpose. -/
structure KeyPool where
  space : Option KeyPair := none
  password : Option KeyPair := none
  deriving Repr, DecidableEq, Inhabited

namespace KeyPool

/-- The pair that waits for a purpose. -/
def get (pool : KeyPool) : KeyPurpose → Option KeyPair
  | .space => pool.space
  | .password => pool.password

/-- Replaces the pair that waits for a purpose. -/
def set (pool : KeyPool) (purpose : KeyPurpose) (pair : Option KeyPair) :
    KeyPool :=
  match purpose with
  | .space => { pool with space := pair }
  | .password => { pool with password := pair }

/-- Whether a pair waits for a purpose. -/
def isReady (pool : KeyPool) (purpose : KeyPurpose) : Bool :=
  (pool.get purpose).isSome

end KeyPool

/-- A supply of new pairs: the outcome of every making of a pair, in order. -/
structure KeySource where
  outcome : Nat → Except GenerationFault KeyPair
  /-- How many pairs have been asked for. -/
  asked : Nat := 0

end DidVault
