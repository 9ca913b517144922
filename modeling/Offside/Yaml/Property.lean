import Offside.Numeral
import Offside.Yaml.Input

/-!
# YAML anchors, tags and directives

An anchor names a node and an alias refers to it. A tag tells what a node is; a handle in front of
it stands for the beginning of a longer name. A directive in front of a document tells the version
of the notation or what a handle stands for.

* `anchorName` reads the name of an anchor or an alias, behind which white space or an indicator has
  to stand.
* `tag` reads a tag in either form, with a handle or between angle brackets. `tagText` decodes the
  bytes that are written as two digits, which have to make up characters.
* `directive` reads a directive to the end of its line; one of another name than the two known is a
  fault.

What a tag demands of a scalar is in `Yaml/Meaning`.
-/

namespace Offside.Yaml

/-! ## Anchors -/

/-- The indicators that may follow the name of an anchor. -/
def nameEnds : List Char := ['?', ':', ',', ']', '}', '%', '@', '\x60']

/-- Reads the name of an anchor or alias. -/
def anchorName (s : Spot) : Option (Text × Spot) :=
  let name := s.run isNameChar
  let next := s.skipWhile isNameChar
  if !name.isEmpty && (atSpace next.rest || next.first?.any nameEnds.contains) then
    some (Text.ofChars name, next)
  else none

/-! ## Tags -/

/-- A character of a tag that stands for itself. -/
def isTagChar (c : Char) : Bool :=
  isNameChar c ||
    [';', '/', '?', ':', '@', '&', '=', '+', '$', ',', '.', '!', '~', '*', '\'', '(', ')', '[',
      ']'].contains c

/-- Reads the characters of a tag. A byte may be written as `%` and two digits; `missing`
bytes of a character that was begun so are still to come. -/
def tagText (missing : Nat) (m : Mark) : List Char → Option (Text × Spot)
  | '%' :: a :: b :: rest =>
    match Numeral.inBase? 16 [a, b] with
    | none => none
    | some byte =>
      let missing? :=
        if missing = 0 then Encoding.followers? byte
        else if byte / 0x40 = 2 then some (missing - 1)
        else none
      match missing? with
      | none => none
      | some missing =>
        (tagText missing (m.steps 3) rest).map fun (t, s) => (UInt8.ofNat byte :: t, s)
  | c :: rest =>
    if missing ≠ 0 || c == '%' then none
    else if isTagChar c then
      (tagText 0 m.step rest).map fun (t, s) => (Text.ofChars [c] ++ t, s)
    else some ([], ⟨m, c :: rest⟩)
  | [] => if missing = 0 then some ([], ⟨m, []⟩) else none

/-- Reads the characters of a tag, of which there has to be one. -/
def someTagText (s : Spot) : Option (Text × Spot) := do
  let (t, next) ← tagText 0 s.mark s.rest
  if t.isEmpty then none else some (t, next)

/-- Reads an exclamation mark and what may be the rest of a handle. -/
def tagHandle (s : Spot) : Text × Spot :=
  let name := (s.skip 1).run isNameChar
  let next := (s.skip 1).skipWhile isNameChar
  if next.first? = some '!' then (Text.ofChars ('!' :: name ++ ['!']), next.skip 1)
  else (Text.ofChars ('!' :: name), next)

/-- Reads a tag from its exclamation mark on. -/
def tag (s : Spot) : Option (Token × Spot) := do
  let (token, next) ←
    match s.rest with
    | '!' :: '<' :: _ => do
      let (t, next) ← someTagText (s.skip 2)
      if next.first? = some '>' then some (Token.tag [] t, next.skip 1) else none
    | _ => do
      let (handle, next) := tagHandle s
      if 1 < handle.length && handle.getLast? = some 0x21 then
        let (t, next) ← someTagText next
        some (.tag handle t, next)
      else
        let (t, next) ← tagText 0 next.mark next.rest
        let ending := handle.tail ++ t
        some (if ending.isEmpty then .tag [] handle else .tag "!" ending, next)
  if atSpace next.rest then some (token, next) else none

/-! ## Directives -/

/-- Reads a number of one or two digits. -/
def versionNumber (s : Spot) : Option (Nat × Spot) := do
  let digits := s.run fun c => '0' ≤ c && c ≤ '9'
  let n ← Numeral.inBase? 10 digits
  if digits.length ≤ 2 then some (n, s.skip digits.length) else none

/-- Reads the version of a directive. -/
def version (s : Spot) : Option (Token × Spot) := do
  let (major, s) ← versionNumber (s.skipWhile isBlank)
  if s.first? = some '.' then
    let (minor, s) ← versionNumber (s.skip 1)
    some (.version major minor, s)
  else none

/-- Reads a handle and what it stands for. -/
def handleMeaning (s : Spot) : Option (Token × Spot) := do
  let s := s.skipWhile isBlank
  if s.first? ≠ some '!' then none
  else
    let (handle, s) := tagHandle s
    if handle ≠ "!" && handle.getLast? ≠ some 0x21 then none
    else if !s.first?.any isBlank then none
    else
      let (t, s) ← someTagText (s.skipWhile isBlank)
      if atSpace s.rest then some (.tagHandle handle t, s) else none

/-- Reads a directive behind its percent sign, to the end of the line. -/
def directive (s : Spot) : Option (Token × Spot) := do
  let name := Text.ofChars (s.run isNameChar)
  let next := s.skipWhile isNameChar
  if name.isEmpty || !atSpace next.rest then none
  else
    let (token, next) ←
      if name = "YAML" then version next
      else if name = "TAG" then handleMeaning next
      else none
    let next := next.skipWhile isBlank
    let next := if next.first? = some '#' then next.skipLine else next
    if atLineEnd next.rest then some (token, next.skipBreak) else none

end Offside.Yaml
