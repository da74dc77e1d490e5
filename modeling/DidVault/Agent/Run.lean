import DidVault.Agent.CommandLine

/-!
# Running the agent

A run needs to know of the world around it the records, the file of the client's
keys and the time.  It ends in a `Report`; the records are on the desk.  What a
run prints goes to the standard output, and only if it succeeds.
-/

namespace DidVault.Agent

/-- Why something cannot be done with a file: the number of the fault and its
words. -/
structure FileFault where
  code : Nat
  words : String
  deriving Repr, DecidableEq

namespace FileFault

/-- There is nothing of that name. -/
def missing : FileFault := ⟨2, "No such file or directory"⟩

/-- There is something of that name that is not a directory. -/
def occupied : FileFault := ⟨17, "File exists"⟩

/-- A part of the path is not a directory. -/
def notDirectory : FileFault := ⟨20, "Not a directory"⟩

/-- A directory is no file. -/
def isDirectory : FileFault := ⟨21, "Is a directory"⟩

/-- A part of the path is longer than a file's name may be. -/
def nameTooLong : FileFault := ⟨36, "File name too long"⟩

/-- The words for a fault. -/
def message (fault : FileFault) : String :=
  fault.words ++ " (os error " ++ toString fault.code ++ ")"

end FileFault

/-- Why a run cannot go on. -/
inductive Cause where
  | file (fault : FileFault)
  /-- A text is not the JSON that it should be. -/
  | malformed (fault : Json.Fault)
  | operation (e : Error)
  | notIndexed (lookup : Lookup)
  /-- The records cannot be read or written. -/
  | storage (words : String)
  deriving Repr, DecidableEq

namespace Cause

/-- The words for a cause. -/
def message : Cause → String
  | file fault => fault.message
  | malformed fault => fault.message
  | operation e => e.message
  | notIndexed lookup => label lookup ++ " is not indexed"
  | storage words => ErrorKind.storeUnavailable.report words

/-- The fault in a JSON text, if that is the cause. -/
def jsonFault? : Cause → Option Json.Fault
  | malformed fault | operation (.did (.serialization fault)) => some fault
  | _ => none

end Cause

/-- Why a run fails: what was being done, if that says more, and why it could
not be done. -/
structure Failure where
  context : Option String
  cause : Cause
  deriving Repr, DecidableEq

/-- The words for a failure; the lines of the cause are indented. -/
def Failure.message (failure : Failure) : String :=
  let cause := failure.cause.message
  match failure.context with
  | none => "Error: " ++ cause
  | some context =>
    let indented := cause.toList.flatMap fun c =>
      if c = '\n' then '\n' :: List.replicate 4 ' ' else [c]
    "Error: " ++ context ++ "\n\nCaused by:\n    " ++ String.ofList indented

/-- What a run comes to. -/
inductive Report where
  | printed (output : String)
  | failed (failure : Failure)
  /-- The command line makes no sense. -/
  | misused (fault : UsageFault)
  deriving Repr, DecidableEq

namespace Report

/-- The exit code. -/
def code : Report → Nat
  | printed _ => 0
  | failed _ => 1
  | misused _ => 2

/-- What is printed on the standard output. -/
def output : Report → String
  | printed output => output
  | failed _ | misused _ => ""

/-- What is printed on the standard error output. -/
def complaint : Report → String
  | printed _ => ""
  | failed failure => failure.message ++ "\n"
  | misused fault => "error: " ++ fault.message ++ "\n"

/-- The answer to a question for the version. -/
def version (program : String) : Report :=
  printed (program ++ " " ++ Agent.version ++ "\n")

/-- The answer to a question for help. -/
def help : Report :=
  printed ("Usage: " ++ name ++ " [OPTIONS] <COMMAND>\n\nCommands:\n"
    ++ String.join (Verb.all.map fun verb => "  " ++ verb.name ++ "\n"))

end Report

/-- A part of a run. -/
abbrev AgentM := ExceptT Failure (StateM Desk)

namespace AgentM

/-- Does an operation on accounts, whose failure is reported in a context. -/
def within {α : Type} (context : Option String) (op : DeskM α) : AgentM α := do
  let (outcome, desk) := op.run.run (← get)
  set desk
  match outcome with
  | .ok a => return a
  | .error e => throw ⟨context, .operation e⟩

/-- Makes pairs in advance.  Without them they are made when they are needed, so
that a failure means nothing. -/
def prepare : AgentM Unit := do
  let (_, desk) := DeskM.pregenerate.run.run (← get)
  set desk

end AgentM

open AgentM

/-- The text of an issued document. -/
def issuedText (account : String) (issued : IssuedDocument) : AgentM String :=
  match Json.parse issued.document with
  | .error fault => throw ⟨none, .malformed fault⟩
  | .ok document =>
    return Json.pretty
      (.object
        [("aoId", .string account), ("did", .string issued.did),
         ("wrappedPasswordKey", .string (Hex.encode issued.wrapped)),
         ("document", document.sorted scalarBefore)]) ++ "\n"

/-- A line of an account and its DID. -/
def accountLine (account did : String) : String :=
  account ++ "\t" ++ did ++ "\n"

/-- What the version command prints. -/
def versionText : String :=
  name ++ " " ++ version ++ "\n"
    ++ "did method    did:" ++ Names.spaceMethod ++ " / did:" ++
      Names.keyMethod ++ "\n"
    ++ "rustc         unknown\n"

/-- Reads the client's keys. -/
def readKeys (path : String) (file : Except FileFault Bytes) :
    AgentM (List BinderKey) :=
  match file with
  | .error fault =>
    throw ⟨some ("failed to read binder keys from " ++ path), .file fault⟩
  | .ok bytes =>
    match BinderKey.parseList bytes with
    | .error fault =>
      throw ⟨some ("malformed binder keys in " ++ path), .malformed fault⟩
    | .ok keys => return keys

/-- Creates the document of an account. -/
def create (now : Timestamp) (account password path : String)
    (file : Except FileFault Bytes) : AgentM String := do
  let keys ← readKeys path file
  prepare
  let issued ← within (some ("failed to create document for aoId " ++ account))
    (Registry.create now account password keys)
  issuedText account issued

/-- Prints the document of an account. -/
def print (lookup : Lookup) : AgentM String := do
  let bytes ← within (some ("no document for " ++ label lookup))
      (Registry.document lookup)
  let document ← within none (Registry.readDocument bytes)
  return document.pretty ++ "\n"

/-- Wraps the password key of an account anew. -/
def rotatePassword (account old new : String) : AgentM String := do
  let wrapped ← within
      (some ("failed to rotate password key of aoId " ++ account))
    (Registry.updatePassword account old new)
  return Hex.encode wrapped ++ "\n"

/-- Gives an account a new password key. -/
def resetPassword (now : Timestamp) (lookup : Lookup) (password : String) :
    AgentM String := do
  prepare
  let (account, issued) ←
    within (some ("failed to reset password credential of " ++ label lookup)) do
      let issued ← Registry.reset now lookup password
      let account ← Registry.accountOf? issued.did
      return (account.getD "", issued)
  issuedText account issued

/-- Prints an account and its DID. -/
def resolve (lookup : Lookup) : AgentM String := do
  let found ← within none <|
    match lookup with
    | .account account => return (← Registry.didOf? account).map (account, ·)
    | .did did => return (← Registry.accountOf? did).map (·, did)
  match found with
  | some (account, did) => return accountLine account did
  | none => throw ⟨none, .notIndexed lookup⟩

/-- Prints every account and its DID. -/
def list : AgentM String := do
  let rows ← within none Registry.accounts
  return String.join (rows.map fun (account, did) => accountLine account did)

/-- What a run sees of the world around it. -/
structure Surroundings where
  now : Timestamp
  /-- The client's keys, for a command that names a file of them. -/
  keysFile : Except FileFault Bytes := .error .missing

/-- Carries out an invocation, and returns what it prints. -/
def Invocation.perform (i : Invocation) (around : Surroundings) :
    AgentM String :=
  match i.command with
  | .version => return versionText
  | .init =>
    return "Agent initialized.\n  Data directory : " ++ i.dataDirectory ++
      "\n  Records        : " ++ toString (← get).view.committed.size ++ "\n"
  | .create account password path =>
    create around.now account password path around.keysFile
  | .print lookup => print lookup
  | .rotatePassword account old new => rotatePassword account old new
  | .resetPassword lookup password => resetPassword around.now lookup password
  | .resolve lookup => resolve lookup
  | .list => list

/-- Carries out an invocation at a desk. -/
def Invocation.run (i : Invocation) (around : Surroundings) (desk : Desk) :
    Report × Desk :=
  let (outcome, desk) := (i.perform around).run.run desk
  match outcome with
  | .ok output => (.printed output, desk)
  | .error failure => (.failed failure, desk)

/-- Whether an invocation needs the records. -/
def Invocation.opensStore (i : Invocation) : Bool :=
  i.command != .version

/-- The file that an invocation reads. -/
def Invocation.keysFile? (i : Invocation) : Option String :=
  match i.command with
  | .create _ _ path => some path
  | _ => none

/-- The failure to make the directory of the records. -/
def Invocation.directoryFailure (i : Invocation) (fault : FileFault) :
    Failure where
  context := some ("failed to create database directory: " ++ i.storePath)
  cause := .file fault

/-- The failure to read or write the records. -/
def Invocation.storeFailure (i : Invocation) (words : String) : Failure where
  context := some ("failed to open identity database at " ++ i.storePath)
  cause := .storage words

end DidVault.Agent
