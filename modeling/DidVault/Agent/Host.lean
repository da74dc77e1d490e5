import DidVault.Agent.Run

/-!
# Whole runs on a host

A host is what stays from one run of the agent to the next: directories, files,
and the records that are kept in a directory.  `Host.run` is a whole run, from
the command line to the report.

A path is followed part by part from the root.  What a further part is looked
for in has to be a directory, so a file on the way stops a path even if the next
part is `.` or `..`.
-/

namespace DidVault.Agent

/-- What stands at a place. -/
inductive FileEntry where
  | directory
  | file (contents : Bytes)
  deriving Repr, DecidableEq

/-- What stays from one run to the next.  A place is the names on the way to it
from the root, and the first entry of a place counts. -/
structure Host where
  entries : List (List String × FileEntry) := [([], .directory)]
  /-- The records that are kept in directories. -/
  stores : List (List String × Records) := []

namespace Host

/-- The parts of a path. -/
def parts (path : String) : List String :=
  (path.splitOn "/").filter (· != "")

/-- The place that a part of a path leads to from a directory. -/
def advance (here : List String) (part : String) :
    Except FileFault (List String) :=
  if part == "." then .ok here
  else if part == ".." then .ok here.dropLast
  else if part.utf8ByteSize > 255 then .error .nameTooLong
  else .ok (here ++ [part])

/-- Puts an entry at a place. -/
def put (h : Host) (place : List String) (entry : FileEntry) : Host :=
  { h with entries := (place, entry) :: h.entries }

/-- The host once there is a directory at a path and on the way to it, and the
place of it. -/
def makeDirectory (h : Host) (path : String) :
    Except FileFault (Host × List String) :=
  let parts := parts path
  parts.zipIdx.foldlM (fun (h, here) (part, index) => do
    let place ← advance here part
    match h.entries.lookup place with
    | some (.file _) =>
      .error (if index + 1 == parts.length then .occupied else .notDirectory)
    | _ => .ok (h.put place .directory, place)) (h, [])

/-- The contents of the file at a path. -/
def contentsAt (h : Host) (path : String) : Except FileFault Bytes := do
  let place ← (parts path).foldlM (fun here part =>
    match h.entries.lookup here with
    | some .directory => advance here part
    | some (.file _) => .error .notDirectory
    | none => .error .missing) []
  match h.entries.lookup place with
  | some (.file contents) =>
    if path.endsWith "/" then .error .notDirectory else .ok contents
  | some .directory => .error .isDirectory
  | none => .error .missing

/-- The records that are kept at a place; there are none at first. -/
def records (h : Host) (place : List String) : Records :=
  (h.stores.lookup place).getD .empty

/-- A whole run of the agent, and the desk after it if there was one.  `supply`
gives the source of keys of a length, and `entropy` the random bytes. -/
def run (h : Host) (environment : Environment) (arguments : List String)
    (now : Timestamp) (supply : Nat → KeySource) (entropy : Bytes) :
    Report × Host × Option Desk :=
  match Request.read environment arguments with
  | .error fault => (.misused fault, h, none)
  | .ok .help => (.help, h, none)
  | .ok (.version program) => (.version program, h, none)
  | .ok (.run i) =>
    match if i.opensStore then h.makeDirectory i.storePath else .ok (h, []) with
    | .error fault => (.failed (i.directoryFailure fault), h, none)
    | .ok (h, place) =>
      let keysFile := (i.keysFile?.map h.contentsAt).getD (.error .missing)
      let (report, desk) := i.run { now, keysFile }
        { view := { committed := h.records place },
          source := supply i.keyBits, entropy }
      (report, { h with stores := (place, desk.view.committed) :: h.stores },
        some desk)

end Host

end DidVault.Agent
