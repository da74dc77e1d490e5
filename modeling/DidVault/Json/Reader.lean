import DidVault.Json.Token

/-!
# Reading JSON

A `Reader` takes a value from the front of a list of tokens.  Readers of lists
and records are built from readers of what they hold, and the first fault in the
order of the text is the one reported, be it a fault of the text or of what was
expected there.

`Json.value` reads any value, and `skip` passes over one that nobody asked for:
it only looks for the end of the value, so that it is content with texts and
numbers that have no value, and with any depth.  Every other reader is given the
number of lists and records that may still be opened.
-/

namespace DidVault.Json

/-- Takes a value from the front of the tokens. -/
abbrev Reader (α : Type) := List Token → Except Fault (α × List Token)

/-- How deep lists and records may be nested. -/
def maxDepth : Nat := 127

/-- The fault of the value that begins here, where `expected` was asked for. -/
def typeFault (expected : String) : List Token → Fault
  | [] => .endOfValue
  | .null :: _ => .wrongType .null expected
  | .bool b :: _ => .wrongType (.bool b) expected
  | .number (.ok n) :: _ => .wrongType (.number n) expected
  | .number (.error fault) :: _ => fault
  | .string (.ok s) :: _ => .wrongType (.string s) expected
  | .string (.error fault) :: _ => fault
  | .beginArray :: _ => .wrongType .sequence expected
  | .beginObject :: _ => .wrongType .map expected
  | .brokenWord fault :: _ => fault
  | .brokenNumber fault :: _ => fault
  | .brokenString fault _ :: _ => fault
  | _ => .expectedValue

/-- Reads a text, which is named `expected` if something else is found. -/
def textAs (expected : String) : Reader String
  | .string (.ok s) :: rest => .ok (s, rest)
  | tokens => .error (typeFault expected tokens)

/-- Reads a text. -/
def text : Reader String :=
  textAs "a string"

/-- Reads null as an absent value. -/
def optional {α : Type} (item : Reader α) : Reader (Option α)
  | .null :: rest => .ok (none, rest)
  | tokens =>
    match item tokens with
    | .ok (a, rest) => .ok (some a, rest)
    | .error fault => .error fault

/-- Whether another item follows in a list of which `first` says that none was
read yet, and the tokens from that item on. -/
def nextItem (first : Bool) : List Token → Except Fault (Bool × List Token)
  | [] => .error .endOfList
  | .endArray :: rest => .ok (false, .endArray :: rest)
  | .comma :: rest =>
    if first then .ok (true, .comma :: rest)
    else
      match rest with
      | [] => .error .endOfValue
      | .endArray :: _ => .error .trailingComma
      | rest => .ok (true, rest)
  | tokens => if first then .ok (true, tokens) else .error .expectedListComma

/-- The items of a list up to its end; every item takes a token, so `fuel` need
not exceed the number of tokens by more than one. -/
def itemsFrom {α : Type} (item : Reader α) : Nat → Bool → Reader (List α)
  | 0, _, _ => .error .endOfList
  | fuel + 1, first, tokens =>
    match nextItem first tokens with
    | .error fault => .error fault
    | .ok (false, rest) => .ok ([], rest.drop 1)
    | .ok (true, tokens) =>
      match item tokens with
      | .error fault => .error fault
      | .ok (a, tokens) =>
        match itemsFrom item fuel false tokens with
        | .error fault => .error fault
        | .ok (as, tokens) => .ok (a :: as, tokens)

/-- Reads a list of items, each of which may open `depth - 1` more lists and
records. -/
def items {α : Type} (item : Nat → Reader α) (depth : Nat) : Reader (List α)
  | .beginArray :: rest =>
    match depth with
    | 0 => .error .tooDeep
    | depth + 1 => itemsFrom (item depth) (rest.length + 1) true rest
  | tokens => .error (typeFault "a sequence" tokens)

/-- The name of the next member of a record and the tokens behind it; nothing at
the end. -/
def nextName (first : Bool) :
    List Token → Except Fault (Option (Except Fault String) × List Token)
  | [] => .error .endOfObject
  | .endObject :: rest => .ok (none, rest)
  | .comma :: rest =>
    if first then .error .keyNotString
    else
      match rest with
      | [] => .error .endOfValue
      | .string s :: rest => .ok (some s, rest)
      | .brokenString fault _ :: _ => .error fault
      | .endObject :: _ => .error .trailingComma
      | _ => .error .keyNotString
  | .string s :: rest =>
    if first then .ok (some s, rest) else .error .expectedObjectComma
  | .brokenString fault _ :: _ =>
    .error (if first then fault else .expectedObjectComma)
  | _ => .error (if first then .keyNotString else .expectedObjectComma)

/-- Passes over the colon between a name and its value. -/
def colon : List Token → Except Fault (List Token)
  | [] => .error .endOfObject
  | .colon :: rest => .ok rest
  | _ => .error .expectedColon

/-- Passes over a colon and reads the value behind it. -/
def behindColon {α : Type} (item : Reader α) : Reader α := fun tokens =>
  match colon tokens with
  | .error fault => .error fault
  | .ok tokens => item tokens

/-- The members of a record up to its end, of which `member` reads each one
behind its name. -/
def membersFrom {σ : Type} (member : σ → String → Reader σ) :
    Nat → Bool → σ → Reader σ
  | 0, _, _, _ => .error .endOfObject
  | fuel + 1, first, state, tokens =>
    match nextName first tokens with
    | .error fault => .error fault
    | .ok (none, rest) => .ok (state, rest)
    | .ok (some (.error fault), _) => .error fault
    | .ok (some (.ok name), tokens) =>
      match member state name tokens with
      | .error fault => .error fault
      | .ok (state, tokens) => membersFrom member fuel false state tokens

/-- Reads a value, which may open `depth` lists and objects inside one
another. -/
def value (depth : Nat) : Reader Json
  | .null :: rest => .ok (null, rest)
  | .bool b :: rest => .ok (bool b, rest)
  | .number (.ok n) :: rest => .ok (number n, rest)
  | .string (.ok s) :: rest => .ok (string s, rest)
  | .beginArray :: rest =>
    match depth with
    | 0 => .error .tooDeep
    | depth + 1 =>
      match itemsFrom (value depth) (rest.length + 1) true rest with
      | .ok (items, rest) => .ok (array items, rest)
      | .error fault => .error fault
  | .beginObject :: rest =>
    match depth with
    | 0 => .error .tooDeep
    | depth + 1 =>
      let member (members : List (String × Json)) (name : String) :
          Reader (List (String × Json)) :=
        fun tokens =>
          match behindColon (value depth) tokens with
          | .ok (v, rest) => .ok (members ++ [(name, v)], rest)
          | .error fault => .error fault
      match membersFrom member (rest.length + 1) true [] rest with
      | .ok (members, rest) => .ok (object members, rest)
      | .error fault => .error fault
  | tokens => .error (typeFault "any value" tokens)

/-- What a value that is passed over stands in. -/
inductive Enclosure where
  | list
  | record
  deriving Repr, DecidableEq

/-- What may come next while values are passed over. -/
inductive Ahead where
  /-- A value. -/
  | value
  /-- The first value of a list, or its end. -/
  | firstItem
  /-- The first name of a record, or its end. -/
  | firstName
  /-- A name. -/
  | name
  /-- The colon behind a name. -/
  | colon
  /-- A comma, or the end of the list or record. -/
  | separator
  deriving Repr, DecidableEq

/-- The fault of a text that ends too early. -/
def Ahead.endFault (ahead : Ahead) (enclosures : List Enclosure) : Fault :=
  match ahead, enclosures with
  | value, _ => .endOfValue
  | firstItem, _ => .endOfList
  | separator, .list :: _ => .endOfList
  | _, _ => .endOfObject

/-- Passes over the rest of a value: `enclosures` are the lists and records
around this place, the innermost first. -/
def skipFrom : List Enclosure → Ahead → List Token → Except Fault (List Token)
  | enclosures, ahead, [] => .error (ahead.endFault enclosures)
  | enclosures, ahead, token :: rest =>
    let complete (enclosures : List Enclosure) : Except Fault (List Token) :=
      match enclosures with
      | [] => .ok rest
      | _ :: _ => skipFrom enclosures .separator rest
    let opened : Except Fault (List Token) :=
      match token with
      | .null | .bool _ | .number _ | .string _ => complete enclosures
      | .beginArray => skipFrom (.list :: enclosures) .firstItem rest
      | .beginObject => skipFrom (.record :: enclosures) .firstName rest
      | .brokenWord fault => .error fault
      | .brokenNumber _ => .error .invalidNumber
      | .brokenString _ fault => .error fault
      | _ => .error .expectedValue
    match ahead with
    | .value => opened
    | .firstItem =>
      match token with
      | .endArray => complete (enclosures.drop 1)
      | _ => opened
    | .firstName =>
      match token with
      | .endObject => complete (enclosures.drop 1)
      | .string _ => skipFrom enclosures .colon rest
      | .brokenString _ fault => .error fault
      | _ => .error .keyNotString
    | .name =>
      match token with
      | .string _ => skipFrom enclosures .colon rest
      | .brokenString _ fault => .error fault
      | _ => .error .keyNotString
    | .colon =>
      match token with
      | .colon => skipFrom enclosures .value rest
      | _ => .error .expectedColon
    | .separator =>
      match enclosures, token with
      | .list :: outer, .endArray => complete outer
      | .record :: outer, .endObject => complete outer
      | .list :: _, .comma => skipFrom enclosures .value rest
      | .record :: _, .comma => skipFrom enclosures .name rest
      | .list :: _, _ => .error .expectedListComma
      | _, _ => .error .expectedObjectComma

/-- Passes over a value. -/
def skip (tokens : List Token) : Except Fault (List Token) :=
  skipFrom [] .value tokens

/-- The value of a whole text: nothing but blanks may follow it. -/
def readAll {α : Type} (reader : Reader α) (bytes : Bytes) : Except Fault α :=
  match reader (Token.scan bytes) with
  | .error fault => .error fault
  | .ok (a, []) => .ok a
  | .ok (_, _ :: _) => .error .trailingCharacters

/-- Reads a JSON text. -/
def parse (bytes : Bytes) : Except Fault Json :=
  readAll (value maxDepth) bytes

end DidVault.Json
