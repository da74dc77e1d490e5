import DidVault.Did.Url.Parser
import DidVault.Text.Slice

/-!
# Reading DID URLs in place

The same texts can be read without taking them apart into characters: a cursor
moves over the bytes, a machine of eight phases says what is expected behind it,
and the parts are pieces of the text between two places of the cursor.

Marks are found byte by byte, but a `%` takes a whole character with it, whose
width is that of the first character of the piece behind the `%`.  A piece that
would begin or end inside a character cannot be taken; the machine then halts
with `Halt.noPiece`, which is no answer of a reader.
-/

namespace DidVault.DidUrl

/-- What the machine reads next. -/
inductive Phase where
  | scheme
  | method
  | id
  | paramName
  | paramValue
  | path
  | query
  | fragment
  deriving Repr, DecidableEq

/-- The cursor, as the number of bytes in front of it, and the parts read so
far. -/
structure Scanner where
  place : Nat
  url : DidUrl
  deriving Repr, DecidableEq

/-- Why the machine halts without a DID URL. -/
inductive Halt where
  /-- The text is not a DID URL. -/
  | refused (e : ParseError)
  /-- There is no piece between two places of the text. -/
  | noPiece (start stop : Nat)
  deriving Repr, DecidableEq

/-- No part has been read. -/
def blank : DidUrl where
  method := ""
  id := ""
  params := []
  path := []
  query := none
  fragment := none

/-- The character that a byte would be on its own. -/
def asChar (b : UInt8) : Char :=
  Char.ofNat b.toNat

/-- The piece of the text between two places. -/
def piece (bytes : Bytes) (start stop : Nat) : Except Halt String :=
  match Utf8.slice? bytes start stop with
  | some text => .ok text
  | none => .error (.noPiece start stop)

/-- The place of the first mark from `place` on, or the end. -/
def seekPlain (marks : List Char) (bytes : Bytes) (place : Nat) : Nat :=
  match _h : bytes[place]? with
  | none => place
  | some b =>
    if asChar b ∈ marks then place else seekPlain marks bytes (place + 1)
termination_by bytes.length - place
decreasing_by
  have := (List.getElem?_eq_some_iff.mp _h).1
  omega

/-- The place of the first unescaped mark from `place` on, or the end.  A `%`
escapes the whole character behind it, and is refused at the end of the text. -/
def seekEscaped (marks : List Char) (bytes : Bytes) (place : Nat) :
    Except Halt Nat :=
  match _h : bytes[place]? with
  | none => .ok place
  | some b =>
    if asChar b = '%' then
      if bytes.length ≤ place + 1 then .error (.refused ⟨place, .loneEscape⟩)
      else
        match piece bytes (place + 1) bytes.length with
        | .error halt => .error halt
        | .ok behind =>
          seekEscaped marks bytes
            (place + 1 + (behind.toList.head?.map Char.utf8Size).getD 1)
    else if asChar b ∈ marks then .ok place
    else seekEscaped marks bytes (place + 1)
termination_by bytes.length - place
decreasing_by
  all_goals
    have := (List.getElem?_eq_some_iff.mp _h).1
    omega

/-- The piece between two places, and the second of them. -/
def takeUpTo (bytes : Bytes) (start stop : Nat) : Except Halt (String × Nat) :=
  do
  return (← piece bytes start stop, stop)

/-- Reads up to the first mark: the piece read and the place of the mark. -/
def takePlain (marks : List Char) (bytes : Bytes) (start : Nat) :
    Except Halt (String × Nat) :=
  takeUpTo bytes start (seekPlain marks bytes start)

/-- Reads up to the first unescaped mark: the piece read and the place of the
mark. -/
def takeEscaped (marks : List Char) (bytes : Bytes) (start : Nat) :
    Except Halt (String × Nat) :=
  seekEscaped marks bytes start >>= takeUpTo bytes start

/-- What is read behind a mark. -/
def Phase.behind : Char → Option Phase
  | ':' => some .id
  | ';' => some .paramName
  | '=' => some .paramValue
  | '/' => some .path
  | '?' => some .query
  | '#' => some .fragment
  | _ => none

/-- Steps over the mark at `place`, if the text does not end there, and goes on
behind it. -/
def goOn (bytes : Bytes) (place : Nat) (url : DidUrl) :
    Option Phase × Scanner :=
  match bytes[place]? with
  | none => (none, ⟨place, url⟩)
  | some b => (Phase.behind (asChar b), ⟨place + 1, url⟩)

/-- Gives the last parameter a value. -/
def giveValue (params : List Param) (value : String) : List Param :=
  match params.getLast? with
  | none => params
  | some param => params.dropLast ++ [{ param with value := some value }]

/-- Reads one part, and says what is to be read next. -/
def step (bytes : Bytes) :
    Phase → Scanner → Except Halt (Option Phase × Scanner)
  | .scheme, s =>
    if (Utf8.encode "did:").isPrefixOf bytes then
      .ok (some .method, { s with place := 4 })
    else .error (.refused ⟨0, .missingScheme⟩)
  | .method, s => do
    let (method, stop) ← takePlain [':'] bytes s.place
    if bytes.length ≤ stop then .error (.refused ⟨stop, .unendedMethod⟩)
    else if method = "" then .error (.refused ⟨s.place, .emptyMethod⟩)
    else .ok (some .id, ⟨stop + 1, { s.url with method }⟩)
  | .id, s => do
    let (segment, stop) ← takeEscaped [':', ';', '/', '?', '#'] bytes s.place
    if s.url.id ≠ "" then
      .ok (goOn bytes stop { s.url with id := s.url.id ++ ":" ++ segment })
    else if segment = "" then .error (.refused ⟨s.place, .emptyId⟩)
    else .ok (goOn bytes stop { s.url with id := segment })
  | .paramName, s => do
    let (name, stop) ← takeEscaped ['=', ';', '/', '?', '#'] bytes s.place
    if name = "" then .error (.refused ⟨s.place, .emptyParamName⟩)
    else .ok (goOn bytes stop
      { s.url with params := s.url.params ++ [⟨name, none⟩] })
  | .paramValue, s => do
    let (value, stop) ← takeEscaped [';', '/', '?', '#'] bytes s.place
    .ok (goOn bytes stop { s.url with params := giveValue s.url.params value })
  | .path, s => do
    let (segment, stop) ← takePlain ['/', '?', '#'] bytes s.place
    if s.url.path = [] ∧ segment = "" then
      .error (.refused ⟨s.place, .emptyFirstSegment⟩)
    else .ok (goOn bytes stop { s.url with path := s.url.path ++ [segment] })
  | .query, s => do
    let (query, stop) ← takePlain ['#'] bytes s.place
    .ok (goOn bytes stop { s.url with query := some query })
  | .fragment, s => do
    let fragment ← piece bytes s.place bytes.length
    .ok (none, ⟨bytes.length, { s.url with fragment := some fragment }⟩)

section Forward

variable {marks : List Char} {bytes : Bytes} {start stop place : Nat}
  {text : String} {phase next : Phase} {s s' : Scanner}

/-- Seeking goes forward. -/
theorem le_seekPlain (marks : List Char) (bytes : Bytes) (place : Nat) :
    place ≤ seekPlain marks bytes place := by
  fun_induction seekPlain marks bytes place with
  | case1 place => exact Nat.le_refl place
  | case2 place => exact Nat.le_refl place
  | case3 place b _ _ ih => omega

/-- Seeking over escapes goes forward as well. -/
theorem le_of_seekEscaped (h : seekEscaped marks bytes place = .ok stop) :
    place ≤ stop := by
  fun_induction seekEscaped marks bytes place with
  | case1 place => exact Nat.le_of_eq (Except.ok.inj h)
  | case2 => cases h
  | case3 => cases h
  | case4 place b _ _ _ behind _ ih =>
      have := ih h
      omega
  | case5 place => exact Nat.le_of_eq (Except.ok.inj h)
  | case6 place b _ _ _ ih =>
      have := ih h
      omega

/-- A run that is taken ends behind its start. -/
theorem le_of_takePlain (h : takePlain marks bytes start = .ok (text, stop)) :
    start ≤ stop := by
  obtain ⟨text', -, h⟩ := bind_eq_ok.mp h
  cases h
  exact le_seekPlain marks bytes start

/-- An escaped run that is taken ends behind its start. -/
theorem le_of_takeEscaped
    (h : takeEscaped marks bytes start = .ok (text, stop)) : start ≤ stop := by
  obtain ⟨stop', hseek, h⟩ := bind_eq_ok.mp h
  obtain ⟨text', -, h⟩ := bind_eq_ok.mp h
  cases h
  exact le_of_seekEscaped hseek

/-- Going on steps over a mark that is there. -/
theorem goOn_forward {url : DidUrl}
    (h : goOn bytes place url = (some next, s')) :
    next ≠ .scheme ∧ place < s'.place ∧ s'.place ≤ bytes.length := by
  unfold goOn at h
  split at h
  · cases h
  · next b hb =>
      obtain ⟨hnext, rfl⟩ := Prod.mk.inj h
      refine ⟨?_, Nat.lt_succ_self place, (List.getElem?_eq_some_iff.mp hb).1⟩
      rintro rfl
      unfold Phase.behind at hnext
      split at hnext <;> cases hnext

/-- A step that goes on moves the cursor forward and not behind the end; only
the first one, which reads the scheme, is at the same place wherever the cursor
was. -/
theorem step_forward (h : step bytes phase s = .ok (some next, s')) :
    next ≠ .scheme ∧
      (phase ≠ .scheme → s.place < s'.place ∧ s'.place ≤ bytes.length) := by
  have behind : ∀ {stop url}, s.place ≤ stop →
      goOn bytes stop url = (some next, s') →
      next ≠ .scheme ∧
        (phase ≠ .scheme → s.place < s'.place ∧ s'.place ≤ bytes.length) := by
    intro stop url hle hgo
    obtain ⟨hnext, hlt, hend⟩ := goOn_forward hgo
    exact ⟨hnext, fun _ => ⟨by omega, hend⟩⟩
  cases phase with
  | scheme =>
      simp only [step] at h
      split at h
      · cases h
        exact ⟨nofun, fun hscheme => absurd rfl hscheme⟩
      · cases h
  | method =>
      obtain ⟨⟨method, stop⟩, htake, h⟩ := bind_eq_ok.mp h
      have hle := le_of_takePlain htake
      dsimp only at h
      split at h
      · cases h
      · next hstop =>
          split at h
          · cases h
          · cases h
            exact ⟨nofun, fun _ => ⟨Nat.lt_succ_of_le hle, Nat.not_le.mp hstop⟩⟩
  | id =>
      obtain ⟨⟨segment, stop⟩, htake, h⟩ := bind_eq_ok.mp h
      have hle := le_of_takeEscaped htake
      dsimp only at h
      split at h
      · exact behind hle (Except.ok.inj h)
      · split at h
        · cases h
        · exact behind hle (Except.ok.inj h)
  | paramName =>
      obtain ⟨⟨name, stop⟩, htake, h⟩ := bind_eq_ok.mp h
      have hle := le_of_takeEscaped htake
      dsimp only at h
      split at h
      · cases h
      · exact behind hle (Except.ok.inj h)
  | paramValue =>
      obtain ⟨⟨value, stop⟩, htake, h⟩ := bind_eq_ok.mp h
      exact behind (le_of_takeEscaped htake) (Except.ok.inj h)
  | path =>
      obtain ⟨⟨segment, stop⟩, htake, h⟩ := bind_eq_ok.mp h
      have hle := le_of_takePlain htake
      dsimp only at h
      split at h
      · cases h
      · exact behind hle (Except.ok.inj h)
  | query =>
      obtain ⟨⟨query, stop⟩, htake, h⟩ := bind_eq_ok.mp h
      exact behind (le_of_takePlain htake) (Except.ok.inj h)
  | fragment =>
      obtain ⟨fragment, -, h⟩ := bind_eq_ok.mp h
      cases h

end Forward

/-- Steps until there is nothing more to read, or a step halts. -/
def run (bytes : Bytes) (phase : Phase) (s : Scanner) : Except Halt DidUrl :=
  match _h : step bytes phase s with
  | .error halt => .error halt
  | .ok (none, s') => .ok s'.url
  | .ok (some next, s') => run bytes next s'
termination_by
  ((if phase = .scheme then 1 else 0 : Nat), bytes.length - s.place)
decreasing_by
  obtain ⟨hnext, hforward⟩ := step_forward _h
  rw [if_neg hnext]
  by_cases hphase : phase = .scheme
  · rw [if_pos hphase]
    exact Prod.Lex.left _ _ Nat.one_pos
  · rw [if_neg hphase]
    have := hforward hphase
    exact Prod.Lex.right _ (by omega)

/-- Reads a DID URL in place. -/
def readInPlace (text : String) : Except Halt DidUrl :=
  let bytes := Utf8.encode text
  if bytes.length < minLength then .error (.refused ⟨0, .tooShort⟩)
  else run bytes .scheme ⟨0, blank⟩

end DidVault.DidUrl
