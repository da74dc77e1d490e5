import DidVault.Did.Document.Validation

/-!
# Identifiers

An identifier is the working state of one DID.  Methods are added and removed
here, and a document is taken from it whenever the result is stored or sent.

The method-specific identifier is not chosen.  It names the key that the device
published, or else the first key in PEM, and it is derived anew after every
change (`Identifier.refresh`), so that it stays the same when other methods come
and go.
-/

namespace DidVault

/-- The working state of one DID. -/
structure Identifier where
  /-- The DID itself, with the parts of the text that it was read from. -/
  url : DidUrl
  context : List String
  controller : Option String := none
  methods : List VerificationMethod := []
  relationships : Relationships := {}
  deriving Repr, BEq, Inhabited

namespace Identifier

/-- An identifier without methods. -/
def new : Identifier where
  url := ⟨Names.spaceMethod, "", [], [], none, none⟩
  context := Names.contexts

/-- An identifier without methods, with the parts of a DID URL. -/
def parse (text : String) : Except DidUrl.ParseError Identifier :=
  match DidUrl.parse text with
  | .ok url => .ok { new with url }
  | .error e => .error e

/-- The fragment of the DID. -/
def fragment (i : Identifier) : String :=
  i.url.fragment.getD Names.defaultFragment

/-- The DID of the account. -/
def did (i : Identifier) : String :=
  Names.spaceStart ++ i.url.id ++ Names.reference i.fragment

/-- A text with a part behind it, if there is one, and the mark in front of that
part. -/
def appendPart (mark written : String) : Option String → String
  | some part => written ++ mark ++ part
  | none => written

/-- The whole DID URL, with the parts of the text that it was read from, one
written behind the other. -/
def display (i : Identifier) : String :=
  let start := "did:" ++ i.url.method ++ ":" ++ i.url.id
  let withParams := i.url.params.foldl
    (fun written param =>
      appendPart "=" (written ++ ";" ++ param.name) param.value) start
  let withPath :=
    i.url.path.foldl
      (fun written segment => written ++ "/" ++ segment) withParams
  appendPart "#" (appendPart "?" withPath i.url.query) i.url.fragment

/-- The method of a fragment, which may be given with its hash. -/
def method? (i : Identifier) (fragment : String) : Option VerificationMethod :=
  i.methods.find? (·.fragment? == some (Text.withoutLeading '#' fragment))

/-- The methods of a kind of credential, in their order. -/
def methodsOf (i : Identifier) (kind : Credential) : List VerificationMethod :=
  i.methods.filter (·.credential? == some kind)

/-- The place of the first method of a kind of credential. -/
def positionOf (i : Identifier) (kind : Credential) : Option Nat :=
  i.methods.findIdx? (·.credential? == some kind)

/-- The key in PEM that the DID names: the one of the device, else the first
one. -/
def sourcePem? (i : Identifier) : Option String :=
  (i.methodsOf .device).findSome? (·.publicKeyPem)
    <|> i.methods.findSome? (·.publicKeyPem)

/-- The method-specific identifier that the methods give; without a key it is
empty. -/
def derivedId (i : Identifier) : String :=
  match i.sourcePem? with
  | some pem => Address.spaceId (Utf8.encode pem)
  | none => ""

/-- Derives the method-specific identifier anew. -/
def refresh (i : Identifier) : Identifier :=
  { i with url := { i.url with id := i.derivedId } }

/-- Takes a document. -/
def toDocument (i : Identifier) : Document where
  context := i.context
  id := i.did
  controller := i.controller
  methods := i.methods
  relationships := i.relationships

/-- The identifier of a document, whose subject must be the one that its methods
give. -/
def ofDocument (d : Document) : Except DidError Identifier :=
  match parse d.id with
  | .error e => .error (.parse e)
  | .ok read =>
    let i : Identifier :=
      { url := read.url
        context := d.context
        controller := d.controller
        methods := d.methods
        relationships := d.relationships }
    if i.derivedId = i.url.id then .ok i.refresh
    else .error (.document (.subjectMismatch i.url.id i.derivedId))

/-- Adds a reference to a relationship, unless it is there. -/
def relate (i : Identifier) (r : Relationship) (reference : String) :
    Identifier :=
  { i with relationships := i.relationships.add r reference }

/-- Inserts a method, at the end or at a place that is not beyond it. -/
def insertMethod (i : Identifier) (m : VerificationMethod)
    (index : Option Nat) : Identifier :=
  let methods :=
    match index with
    | some n => i.methods.take n ++ m :: i.methods.drop n
    | none => i.methods ++ [m]
  refresh { i with methods }

/-- The id of a method that publishes a key. -/
def methodId (pem query fragment : String) : String :=
  Names.keyStart ++ Address.keyHash (Utf8.encode pem)
    ++ (if query.isEmpty then "" else "?" ++ query)
    ++ Names.reference (Text.withoutLeading '#' fragment)

/-- Publishes a key that is not published yet, and names the new method. -/
def addMethod (i : Identifier) (keyType : KeyType) (pem query fragment : String)
    (index : Option Nat) : Except DidError (Identifier × String) :=
  let hash := Address.keyHash (Utf8.encode pem)
  if i.methods.any (·.materialHash? == some hash) then
    .error (.duplicateKey hash)
  else
    let id := methodId pem query fragment
    .ok (i.insertMethod
      (.publishing id keyType (Names.reference i.fragment) pem) index, id)

/-- Removes the methods that `gone` holds of and the references to them, and
counts them. -/
def removeWhere (i : Identifier) (gone : VerificationMethod → Bool) :
    Identifier × Nat :=
  let removed := i.methods.filter gone
  let dangling := removed.filterMap VerificationMethod.reference?
  (refresh
    { i with
      methods := i.methods.filter (!gone ·)
      relationships := i.relationships.map (·.filter (!dangling.contains ·)) },
    removed.length)

/-- Removes the methods whose id holds a text. -/
def removeHolding (i : Identifier) (part : String) : Identifier × Nat :=
  i.removeWhere fun m => Text.holds part m.id

/-- Removes the methods of a fragment, which may be given with its hash. -/
def removeFragment (i : Identifier) (fragment : String) : Identifier × Nat :=
  i.removeWhere (·.fragment? == some (Text.withoutLeading '#' fragment))

end Identifier

end DidVault
