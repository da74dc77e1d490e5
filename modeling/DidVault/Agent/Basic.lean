import DidVault.Registry

/-!
# The agent

The agent is the command line of the registry.  A run of it carries out one
`Command` on the records in a data directory.
-/

namespace DidVault.Agent

/-- The name of the agent. -/
def name : String := "aospace-agent"

/-- The version of the agent. -/
def version : String := "0.1.0"

/-- What the agent can be told to do. -/
inductive Command where
  /-- Creates the data directory. -/
  | init
  /-- Issues the document of an account; the client's keys are in the file
  `keysFile`. -/
  | create (account password keysFile : String)
  /-- Prints the document of an account. -/
  | print (lookup : Lookup)
  | rotatePassword (account old new : String)
  | resetPassword (lookup : Lookup) (password : String)
  /-- Prints an account and its DID. -/
  | resolve (lookup : Lookup)
  /-- Prints every account and its DID. -/
  | list
  /-- Prints the version. -/
  | version
  deriving Repr, DecidableEq

/-- How the log is written. -/
inductive LogFormat where
  | pretty
  | json
  deriving Repr, DecidableEq

namespace LogFormat

/-- Every format. -/
def all : List LogFormat := [pretty, json]

/-- The name of a format. -/
def name : LogFormat → String
  | pretty => "pretty"
  | json => "json"

/-- The format of a name. -/
def ofName? (s : String) : Option LogFormat :=
  all.find? (·.name == s)

end LogFormat

/-- Everything that a command line says. -/
structure Invocation where
  dataDirectory : String
  logFormat : LogFormat
  /-- The length of the keys that are made. -/
  keyBits : Nat
  command : Command
  deriving Repr, DecidableEq

/-- A name in a directory. -/
def pathIn (directory name : String) : String :=
  if directory.toList.getLast? = some '/' then directory ++ name else
    directory ++ "/" ++ name

/-- The directory that a path is in. -/
def parentOf (path : String) : String :=
  String.ofList
    ((path.toList.reverse.dropWhile (· != '/')).dropWhile (· == '/')).reverse

/-- The directory of the records. -/
def Invocation.storePath (i : Invocation) : String :=
  pathIn i.dataDirectory "identity"

/-- How an account is called in reports. -/
def label : Lookup → String
  | .account account => "aoId " ++ account
  | .did did => did

end DidVault.Agent
