import DidVault.Agent.Basic
import DidVault.Text.Cut

/-!
# Reading the command line

A command line is the name of a command with options in front of it and behind
it.  An option is written `--name value`, `--name=value` or, if it has a letter,
`-l value`, `-lvalue` or `-l=value`.

* The options of every command may stand on both sides of the name; the one
  behind counts.
* An option may not stand twice on one side.
* Some options may also be given by a variable of the environment; the command
  line goes first.  Such a variable is looked at on every side where its option
  is absent, and has to be in order even if it does not count in the end.
* Arguments are read from left to right, and the first thing that is wrong, or
  that asks for the version or for help, ends the reading.
* An option whose value is an argument of its own is looked at when the next
  option of its side is read or its side ends; the side in front of the name
  ends behind the whole command line.
-/

namespace DidVault.Agent

/-- An option with a value. -/
structure Switch where
  long : String
  letter : Option Char := none
  /-- The variable of the environment that may stand in for the option. -/
  fallback : Option String := none
  accepts : String → Bool := fun _ => true

/-- Why a command line makes no sense. -/
inductive UsageFault where
  | unexpectedArgument (argument : String)
  | missingValue (long : String)
  | invalidValue (long value : String)
  | repeated (long : String)
  | missingCommand
  | missingOption
  deriving Repr, DecidableEq

/-- The words of a fault. -/
def UsageFault.message : UsageFault → String
  | unexpectedArgument argument =>
    "unexpected argument '" ++ argument ++ "' found"
  | missingValue long =>
    "a value is required for '--" ++ long ++ "' but none was supplied"
  | invalidValue long value =>
    "invalid value '" ++ value ++ "' for '--" ++ long ++ "'"
  | repeated long =>
    "the argument '--" ++ long ++ "' cannot be used multiple times"
  | missingCommand => name ++ " requires a subcommand but one was not provided"
  | missingOption => "the required arguments were not provided"

/-- What ends the reading of a command line early. -/
inductive Halt where
  | usage (fault : UsageFault)
  | version
  | help
  deriving Repr, DecidableEq

/-- What a command line asks for. -/
inductive Request where
  | run (invocation : Invocation)
  /-- The version, under the name of the agent or of one of its commands. -/
  | version (program : String)
  | help
  deriving Repr, DecidableEq

/-- A whole number below two to the power of sixty-four, which may have a plus
in front. -/
def wholeNumber? (s : String) : Option Nat :=
  let digits : List Char :=
    match s.toList with
    | '+' :: digits => digits
    | digits => digits
  let n := digits.foldl (fun n c => n * 10 + (c.toNat - 48)) 0
  if digits ≠ [] ∧ digits.all Char.isDigit ∧
    n < Nat.pow 2 64 then some n else none

/-! ## The options -/

/-- Where the records are. -/
def dataDirectory : Switch where
  long := "data-dir"
  letter := some 'd'
  fallback := some "AOSPACE_DATA_DIR"
  accepts := (!·.isEmpty)

/-- How the log is written. -/
def logFormat : Switch where
  long := "log-format"
  fallback := some "AOSPACE_LOG_FORMAT"
  accepts := fun s => (LogFormat.ofName? s).isSome

/-- The length of new keys. -/
def keyBits : Switch where
  long := "rsa-bits"
  fallback := some "AOSPACE_RSA_BITS"
  accepts := fun s => (wholeNumber? s).isSome

/-- The options of every command. -/
def common : List Switch := [dataDirectory, logFormat, keyBits]

/-- An account by its id. -/
def account : Switch where
  long := "ao-id"

/-- An account by its DID. -/
def did : Switch where
  long := "did"

/-- The password of a new document. -/
def password : Switch where
  long := "password"
  fallback := some "AOSPACE_PASSWORD"

/-- The file of the client's keys. -/
def keysFile : Switch where
  long := "binder-keys"
  accepts := (!·.isEmpty)

/-- The password that counted until now. -/
def oldPassword : Switch where
  long := "old-password"

/-- The password that counts from now on. -/
def newPassword : Switch where
  long := "new-password"

/-! ## The commands -/

/-- A command before its options are known. -/
inductive Verb where
  | init
  | create
  | print
  | rotatePassword
  | resetPassword
  | resolve
  | list
  | version
  deriving Repr, DecidableEq

namespace Verb

/-- Every command. -/
def all : List Verb :=
  [init, create, print, rotatePassword, resetPassword, resolve, list, version]

/-- The name of a command. -/
def name : Verb → String
  | init => "init"
  | create => "create"
  | print => "show"
  | rotatePassword => "rotate-password"
  | resetPassword => "reset-password"
  | resolve => "lookup"
  | list => "list"
  | version => "version"

/-- The command of a name. -/
def ofName? (s : String) : Option Verb :=
  all.find? (·.name == s)

/-- The options of a command, apart from those of every command. -/
def switches : Verb → List Switch
  | init | list | version => []
  | create => [account, password, keysFile]
  | print | resolve => [account, did]
  | rotatePassword => [account, oldPassword, newPassword]
  | resetPassword => [account, did, newPassword]

end Verb

/-- An account that is given by exactly one of its id and its DID. -/
def lookup? (value : Switch → Option String) : Option Lookup :=
  match value account, value did with
  | some id, none => some (.account id)
  | none, some url => some (.did url)
  | _, _ => none

/-- A command with its options, if none of those that it needs is absent. -/
def Verb.command? (value : Switch → Option String) : Verb → Option Command
  | init => some .init
  | create => do
    return .create (← value account) (← value password) (← value keysFile)
  | print => do return .print (← lookup? value)
  | rotatePassword => do
    return .rotatePassword (← value account) (← value oldPassword)
      (← value newPassword)
  | resetPassword => do
    return .resetPassword (← lookup? value) (← value newPassword)
  | resolve => do return .resolve (← lookup? value)
  | list => some .list
  | version => some .version

/-! ## The reading -/

/-- What an argument is. -/
inductive Argument where
  | word
  /-- An option together with its value. -/
  | complete (switch : Switch) (value : String)
  /-- An option whose value is the next argument. -/
  | awaiting (switch : Switch)

/-- Whether an argument is written like an option. -/
def isOptionLike (argument : String) : Bool :=
  match argument.toList with
  | '-' :: _ :: _ => true
  | _ => false

/-- Tells what an argument is. -/
def classify (switches : List Switch) (argument : String) :
    Except Halt Argument :=
  match argument.toList with
  | '-' :: '-' :: rest =>
    let (long, value?) := Text.cutChars '=' rest
    match switches.find? (·.long.toList == long), value? with
    | some switch, some value => .ok (.complete switch (String.ofList value))
    | some switch, none => .ok (.awaiting switch)
    | none, none =>
      if long = "version".toList then .error .version
      else if long = "help".toList then .error .help
      else .error (.usage (.unexpectedArgument argument))
    | none, some _ => .error (.usage (.unexpectedArgument argument))
  | '-' :: letter :: rest =>
    if letter = 'V' then .error .version
    else if letter = 'h' then .error .help
    else
      match switches.find? (·.letter == some letter), rest with
      | some switch, [] => .ok (.awaiting switch)
      | some switch, '=' :: value =>
        .ok (.complete switch (String.ofList value))
      | some switch, value => .ok (.complete switch (String.ofList value))
      | none, _ => .error (.usage (.unexpectedArgument argument))
  | _ => .ok .word

/-- The options that one side of the command line gives, by name. -/
abbrev Given := List (String × String)

/-- Adds an option. -/
def Given.add (given : Given) (switch : Switch) (value : String) :
    Except Halt Given :=
  if (given.lookup switch.long).isSome then
    .error (.usage (.repeated switch.long))
  else if switch.accepts value then .ok ((switch.long, value) :: given)
  else .error (.usage (.invalidValue switch.long value))

/-- One side of the command line as far as it has been read. -/
structure Side where
  given : Given := []
  /-- An option whose value was an argument of its own, and which has not been
  looked at yet. -/
  waiting : Option (Switch × String) := none

/-- Looks at the option that waits. -/
def Side.settle (side : Side) : Except Halt Given :=
  match side.waiting with
  | none => .ok side.given
  | some (switch, value) => side.given.add switch value

/-- Reads one side of the command line: the options up to the first of `words`,
that word if there is one, and what stands behind it. -/
def scan (switches : List Switch) (words : List String) (side : Side) :
    List String → Except Halt (Side × Option (String × List String))
  | [] => .ok (side, none)
  | argument :: rest =>
    if argument = "--" then
      match rest with
      | [] => .ok (side, none)
      | next :: _ => .error (.usage (.unexpectedArgument next))
    else if argument ∈ words then .ok (side, some (argument, rest))
    else
      match side.settle with
      | .error halt => .error halt
      | .ok given =>
        match classify switches argument with
        | .error halt => .error halt
        | .ok .word => .error (.usage (.unexpectedArgument argument))
        | .ok (.complete switch value) =>
          match given.add switch value with
          | .error halt => .error halt
          | .ok given => scan switches words { given } rest
        | .ok (.awaiting switch) =>
          match rest with
          | [] => .error (.usage (.missingValue switch.long))
          | value :: rest =>
            if isOptionLike value then
              .error (.usage (.missingValue switch.long))
            else scan switches words
              { given, waiting := some (switch, value) } rest

/-- The variables of the environment. -/
abbrev Environment := String → Option String

/-- What the environment says of an option. -/
def Switch.fromEnvironment (environment : Environment) (switch : Switch) :
    Option String :=
  switch.fallback.bind environment

/-- Looks at the variables of the options that one side does not give. -/
def checkEnvironment (environment : Environment) (given : Given)
    (switches : List Switch) : Except Halt Unit :=
  switches.forM fun switch =>
    match given.lookup switch.long, switch.fromEnvironment environment with
    | none, some value =>
      if switch.accepts value then .ok ()
      else .error (.usage (.invalidValue switch.long value))
    | _, _ => .ok ()

/-- The word that asks for help. -/
def helpWord : String := "help"

/-- What stands behind the word that asks for help: nothing, or the name of a
command. -/
def readHelp : List String → Except Halt Request
  | [] => .ok .help
  | word :: rest =>
    match rest with
    | [] =>
      if word = helpWord ∨ (Verb.ofName? word).isSome then .ok .help
      else .error (.usage (.unexpectedArgument word))
    | next :: _ => .error (.usage (.unexpectedArgument next))

/-- Reads what stands behind the name of a command; `outer` stands in front of
it. -/
def readCommand (environment : Environment) (outer : Side) (verb : Verb)
    (rest : List String) : Except Halt Request := do
  let switches := common ++ verb.switches
  let (inner, _) ← scan switches [] {} rest
  let inner ← inner.settle
  checkEnvironment environment inner switches
  let outer ← outer.settle
  checkEnvironment environment outer common
  let value (switch : Switch) : Option String :=
    inner.lookup switch.long <|> outer.lookup switch.long
      <|> switch.fromEnvironment environment
  match verb.command? value with
  | none => throw (.usage .missingOption)
  | some command =>
    return .run
      { dataDirectory := (value dataDirectory).getD "/var/lib/aospace"
        logFormat := ((value logFormat).bind LogFormat.ofName?).getD .pretty
        keyBits := ((value keyBits).bind wholeNumber?).getD 2048
        command }

/-- Reads a command line. -/
def Request.read (environment : Environment) (arguments : List String) :
    Except UsageFault Request :=
  match scan common (helpWord :: Verb.all.map Verb.name) {} arguments with
  | .error halt => ended name halt
  | .ok (_, none) => .error .missingCommand
  | .ok (outer, some (word, rest)) =>
    match Verb.ofName? word with
    | none =>
      match readHelp rest with
      | .ok request => .ok request
      | .error halt => ended name halt
    | some verb =>
      match readCommand environment outer verb rest with
      | .ok request => .ok request
      | .error halt => ended (name ++ "-" ++ word) halt
where
  /-- What an early end comes to, in the part of the command line that belongs
  to a program. -/
  ended (program : String) : Halt → Except UsageFault Request
    | .usage fault => .error fault
    | .version => .ok (.version program)
    | .help => .ok .help

end DidVault.Agent
