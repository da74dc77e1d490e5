import DidVault.Did.Url.Basic

/-!
# Reading DID URLs

The parts are read from left to right, each up to the first character that ends
it.  In the identifier and in parameters a `%` takes the next character with it,
whatever that is, so an escaped delimiter ends nothing.

A reading that fails names the byte where it failed: the places are remembered
as the text that was still unread there (`Stop.unread`), and `DidUrl.parse`
turns them into offsets.
-/

namespace DidVault.DidUrl

/-- The fewest bytes that a DID can have (`did:a:b`). -/
def minLength : Nat := 7

/-- What a text lacks to be a DID URL. -/
inductive Fault where
  | tooShort
  | missingScheme
  | unendedMethod
  | emptyMethod
  | emptyId
  | loneEscape
  | emptyParamName
  | emptyFirstSegment
  deriving Repr, DecidableEq

/-- The words of a fault. -/
def Fault.message : Fault → String
  | .tooShort => s!"input is shorter than {minLength} bytes"
  | .missingScheme => "expected 'did:' prefix"
  | .unendedMethod => "missing ':' after method name"
  | .emptyMethod => "method name is empty"
  | .emptyId => "method-specific id is empty"
  | .loneEscape => "'%' must be followed by a character"
  | .emptyParamName => "parameter name is empty"
  | .emptyFirstSegment => "first path segment is empty"

/-- A fault and the byte offset at which it was found. -/
structure ParseError where
  offset : Nat
  fault : Fault
  deriving Repr, DecidableEq

/-- How an offset and the words of a fault are reported. -/
def describeFault (offset : Nat) (words : String) : String :=
  s!"invalid DID at byte {offset}: {words}"

/-- The words of a parse error. -/
def ParseError.message (e : ParseError) : String :=
  describeFault e.offset e.fault.message

/-- A fault together with the text that was unread when it was found. -/
structure Stop where
  fault : Fault
  unread : List Char
  deriving Repr, DecidableEq

/-- How many bytes a list of characters takes in UTF-8. -/
def byteLength (cs : List Char) : Nat :=
  cs.foldr (fun c n => c.utf8Size + n) 0

/-- Reads up to the first unescaped character that `ends` holds of, and returns
what was read and what is left.  A `%` at the end of the text escapes nothing
and is refused. -/
def scanEscaped (ends : Char → Bool) :
    List Char → Except Stop (List Char × List Char)
  | [] => .ok ([], [])
  | ['%'] => .error ⟨.loneEscape, ['%']⟩
  | '%' :: c :: rest =>
    match scanEscaped ends rest with
    | .ok (taken, left) => .ok ('%' :: c :: taken, left)
    | .error stop => .error stop
  | c :: rest =>
    if ends c then .ok ([], c :: rest)
    else
      match scanEscaped ends rest with
      | .ok (taken, left) => .ok (c :: taken, left)
      | .error stop => .error stop

/-- Reads up to the first character that `ends` holds of; nothing is escaped. -/
def scanPlain (ends : Char → Bool) (cs : List Char) : List Char × List Char :=
  cs.span (!ends ·)

/-- What ends the method-specific identifier. -/
def endsId (c : Char) : Bool := c == ';' || c == '/' || c == '?' || c == '#'

/-- What ends the name of a parameter. -/
def endsName (c : Char) : Bool := c == '=' || endsId c

/-- What ends a path segment. -/
def endsSegment (c : Char) : Bool := c == '/' || c == '?' || c == '#'

/-- Readings in a row succeed if each of them does. -/
theorem bind_eq_ok {ε α β : Type} {x : Except ε α} {f : α → Except ε β}
    {b : β} :
    x >>= f = .ok b ↔ ∃ a, x = .ok a ∧ f a = .ok b := by
  cases x with
  | error e => exact ⟨nofun, nofun⟩
  | ok a => exact ⟨fun h => ⟨a, rfl, h⟩, fun ⟨_, rfl, h⟩ => h⟩

/-- What is left after a scan is no longer than what was there. -/
theorem length_le_of_scanEscaped {ends : Char → Bool}
    {cs taken left : List Char} (h : scanEscaped ends cs = .ok (taken, left)) :
    left.length ≤ cs.length := by
  fun_induction scanEscaped ends cs generalizing taken left with
  | case1 => simp_all
  | case2 => simp_all
  | case3 c rest taken' left' hr ih =>
    have := ih hr
    simp only [Except.ok.injEq, Prod.mk.injEq] at h
    obtain ⟨-, rfl⟩ := h
    simp only [List.length_cons]; omega
  | case4 => simp_all
  | case5 c rest _ _ hc => simp_all
  | case6 c rest _ _ hc taken' left' hr ih =>
    have := ih hr
    simp only [Except.ok.injEq, Prod.mk.injEq] at h
    obtain ⟨-, rfl⟩ := h
    simp only [List.length_cons]; omega
  | case7 => simp_all

/-- Reads the name and, after `=`, the value of one parameter. -/
def scanParam (cs : List Char) : Except Stop (Param × List Char) :=
  match scanEscaped endsName cs with
  | .error stop => .error stop
  | .ok ([], _) => .error ⟨.emptyParamName, cs⟩
  | .ok (name, '=' :: rest) =>
    match scanEscaped endsId rest with
    | .error stop => .error stop
    | .ok (value, left) =>
      .ok (⟨String.ofList name, some (String.ofList value)⟩, left)
  | .ok (name, left) => .ok (⟨String.ofList name, none⟩, left)

/-- Scanning a parameter goes forward. -/
theorem length_le_of_scanParam {cs left : List Char} {param : Param}
    (h : scanParam cs = .ok (param, left)) : left.length ≤ cs.length := by
  unfold scanParam at h
  split at h
  · simp at h
  · simp at h
  · next name rest hn =>
    have h1 := length_le_of_scanEscaped hn
    split at h
    · simp at h
    · next value left' hv =>
      have h2 := length_le_of_scanEscaped hv
      simp only [Except.ok.injEq, Prod.mk.injEq] at h
      obtain ⟨-, rfl⟩ := h
      simp only [List.length_cons] at h1; omega
  · next name left' _ hn =>
    have h1 := length_le_of_scanEscaped hn
    simp only [Except.ok.injEq, Prod.mk.injEq] at h
    obtain ⟨-, rfl⟩ := h
    exact h1

/-- Reads parameters for as long as a semicolon follows. -/
def scanParams (cs : List Char) : Except Stop (List Param × List Char) :=
  match cs with
  | ';' :: rest =>
    match _h : scanParam rest with
    | .error stop => .error stop
    | .ok (param, left) =>
      match scanParams left with
      | .error stop => .error stop
      | .ok (params, left) => .ok (param :: params, left)
  | cs => .ok ([], cs)
termination_by cs.length
decreasing_by
  have := length_le_of_scanParam _h
  simp only [List.length_cons]; omega

/-- Reads a path: the segments between slashes, of which the first has a
character. -/
def scanPath : List Char → Except Stop (List String × List Char)
  | '/' :: rest =>
    match rest with
    | [] => .error ⟨.emptyFirstSegment, rest⟩
    | c :: _ =>
      if endsSegment c then .error ⟨.emptyFirstSegment, rest⟩
      else
        let (segments, left) := scanPlain (fun c => c == '?' || c == '#') rest
        .ok ((segments.splitOn '/').map String.ofList, left)
  | cs => .ok ([], cs)

/-- Reads a query, when a question mark follows. -/
def scanQuery : List Char → Option String × List Char
  | '?' :: rest =>
    let (query, left) := scanPlain (· == '#') rest
    (some (String.ofList query), left)
  | cs => (none, cs)

/-- Reads a fragment, when a hash follows; it takes the rest of the text. -/
def scanFragment : List Char → Option String
  | '#' :: rest => some (String.ofList rest)
  | _ => none

/-- Reads the method-specific identifier.  Colons inside it are part of it, but
it does not begin with one. -/
def scanId : List Char → Except Stop (List Char × List Char)
  | [] => .error ⟨.emptyId, []⟩
  | c :: rest =>
    if c == ':' || endsId c then .error ⟨.emptyId, c :: rest⟩
    else scanEscaped endsId (c :: rest)

/-- Reads everything behind `did:`. -/
def scanBody (cs : List Char) : Except Stop DidUrl :=
  match scanPlain (· == ':') cs with
  | (_, []) => .error ⟨.unendedMethod, []⟩
  | ([], _ :: _) => .error ⟨.emptyMethod, cs⟩
  | (method, _ :: rest) => do
    let (id, rest) ← scanId rest
    let (params, rest) ← scanParams rest
    let (path, rest) ← scanPath rest
    let (query, rest) := scanQuery rest
    return {
      method := String.ofList method
      id := String.ofList id
      params
      path
      query
      fragment := scanFragment rest }

/-- Reads a DID URL from a list of characters. -/
def scan (cs : List Char) : Except Stop DidUrl :=
  if byteLength cs < minLength then .error ⟨.tooShort, cs⟩
  else
    match cs with
    | 'd' :: 'i' :: 'd' :: ':' :: rest => scanBody rest
    | cs => .error ⟨.missingScheme, cs⟩

/-- Reads a DID URL. -/
def parse (text : String) : Except ParseError DidUrl :=
  match scan text.toList with
  | .ok url => .ok url
  | .error stop =>
    .error ⟨byteLength text.toList - byteLength stop.unread, stop.fault⟩

end DidVault.DidUrl
