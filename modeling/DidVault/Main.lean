import DidVault.Agent.Run
import DidVault.Records.Archive
import Std.Time.DateTime

/-!
# The program

The outer layer of the agent: it reads the command line, the environment and the
files, lets `Invocation.run` do the work, keeps the records if they have
changed, and prints the report.
-/

namespace DidVault.Agent

/-- The fault that the system reports. -/
def FileFault.ofError : IO.Error → FileFault
  | .alreadyExists _ code words | .otherError code words
    | .resourceBusy code words
  | .resourceVanished code words | .unsupportedOperation code words
    | .hardwareFault code words
  | .unsatisfiedConstraints code words | .illegalOperation code words
    | .protocolError code words
  | .timeExpired code words | .interrupted _ code words
    | .noFileOrDirectory _ code words
  | .invalidArgument _ code words | .permissionDenied _ code words
  | .resourceExhausted _ code words | .inappropriateType _ code words
  | .noSuchThing _ code words => ⟨code.toNat, words⟩
  | .unexpectedEof => ⟨0, "unexpected end of file"⟩
  | .userError words => ⟨0, words⟩

/-- The time. -/
def readClock : IO Timestamp := do
  let now ← Std.Time.Timestamp.now
  return { seconds := now.toSecondsSinceUnixEpoch.val }

/-- Random bytes. -/
def drawBytes (count : Nat) : IO Bytes := do
  return (← IO.getRandomBytes count.toUSize).toList

/-- A supply of pairs, each made from a seed of its own. -/
def randomSource (bits : Nat) : IO KeySource := do
  let seed ← drawBytes 32
  return { outcome := fun index =>
    Rsa.generate bits (seed ++ Bytes.ofNatWide 8 index) }

/-- The file of the records. -/
def recordsFile (i : Invocation) : String :=
  pathIn i.storePath "records"

/-- Reads a file. -/
def readFile (path : String) : IO (Except FileFault Bytes) := do
  try
    return .ok (← IO.FS.readBinFile path).toList
  catch e =>
    return .error (.ofError e)

/-- Makes a directory, and first the one that it is in if that is missing;
`depth` bounds how many are missing. -/
def makeDirectory : Nat → String → IO Unit
  | 0, path => IO.FS.createDir path
  | depth + 1, path => do
    try
      IO.FS.createDir path
    catch e =>
      match e with
      | .noFileOrDirectory .. =>
        makeDirectory depth (parentOf path)
        IO.FS.createDir path
      | e =>
        let place := (← IO.currentDir) / path
        if !(← place.isDir) then throw e

/-- Makes the directory of the records and reads them; there are none at
first. -/
def openRecords (i : Invocation) : IO (Except Failure Records) := do
  try
    makeDirectory i.storePath.length i.storePath
  catch e =>
    return .error (i.directoryFailure (.ofError e))
  match ← readFile (recordsFile i) with
  | .error fault =>
    if fault.code = FileFault.missing.code then return .ok .empty
    else return .error (i.storeFailure fault.message)
  | .ok bytes =>
    match (Utf8.decode bytes).toOption.bind Records.ofText? with
    | some records => return .ok records
    | none => return .error (i.storeFailure "the records are damaged")

/-- Replaces the file of the records as a whole. -/
def keepRecords (i : Invocation) (records : Records) : IO Unit := do
  let draft := recordsFile i ++ ".new"
  IO.FS.writeFile draft records.toText
  IO.FS.rename draft (recordsFile i)

/-- Carries out an invocation. -/
def carryOut (i : Invocation) : IO Report := do
  match ← (if i.opensStore then openRecords i else pure (.ok .empty)) with
  | .error failure => return .failed failure
  | .ok committed =>
    let keysFile ←
      match i.keysFile? with
      | some path => readFile path
      | none => pure (.error .missing)
    let desk : Desk :=
      { view := { committed }, source := ← randomSource i.keyBits,
        entropy := ← drawBytes 64 }
    let (report, desk) := i.run { now := ← readClock, keysFile } desk
    if desk.view.committed.entries ≠ committed.entries then
      keepRecords i desk.view.committed
    return report

/-- The variables of the environment that options look at. -/
def readEnvironment : IO Environment := do
  let names :=
    (common ++ Verb.all.flatMap Verb.switches).filterMap Switch.fallback
  let found ← names.filterMapM fun name => do
    return (← IO.getEnv name).map (name, ·)
  return fun name => found.lookup name

end DidVault.Agent

open DidVault.Agent

/-- Runs the agent. -/
def main (arguments : List String) : IO UInt32 := do
  let report ←
    match Request.read (← readEnvironment) arguments with
    | .error fault => pure (.misused fault)
    | .ok .help => pure .help
    | .ok (.version program) => pure (.version program)
    | .ok (.run invocation) => carryOut invocation
  IO.print report.output
  IO.eprint report.complaint
  return UInt32.ofNat report.code
