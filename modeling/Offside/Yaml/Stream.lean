import Offside.Yaml.Block
import Offside.Yaml.Property
import Offside.Yaml.Scalar

/-!
# Cutting a YAML stream into tokens

A stream is read from left to right. In block context a collection begins where a line is indented
further than the collection around it, and ends where a line is indented less. That a scalar is a
key shows only at the `:` behind it, so the reader remembers where a key may have begun, the
*candidate*, and puts the tokens for the key there later.

* `Stream` holds what is left of the text, the open collections, the candidates of the levels and
  the queue of tokens. Tokens are numbered, so that a token can be put in front of one that is still
  in the queue (`Stream.insert`).
* `Stream.skipSpace` skips white space and comments. `Stream.roll` and `Stream.unroll` begin and end
  block collections.
* `Stream.token` reads the token at the present place, and `Stream.fetch` skips to it first.
* `Stream.ready` cuts tokens until the first one can be told: three tokens are in the queue, and
  more as long as the first one may turn out to begin a key. A fault further on is not noticed.

Results:
* `Stream.skipSpace_length`: skipping white space adds no characters.
-/

namespace Offside.Yaml

/-- A place where a key without a mark may begin. -/
structure Candidate where
  /-- The number of the token that it begins with. -/
  number : Nat
  mark : Mark
  /-- Whether nothing else may stand there. -/
  required : Bool
  /-- Whether the key may still turn up. -/
  possible : Bool

/-- A stream in the course of being cut. -/
structure Stream where
  spot : Spot
  /-- How many characters the stream has. -/
  size : Nat
  /-- Whether the text ends where its characters end. -/
  whole : Bool
  /-- Whether the first character of each line is passed over. -/
  shifted : Bool
  /-- The column of the innermost block collection, -1 outside of all. -/
  indent : Int
  /-- The columns of the block collections around it. -/
  indents : List Int
  /-- Whether a key may begin at the next token. -/
  keyAllowed : Bool
  /-- How many flow collections are open. -/
  level : Nat
  /-- The latest candidate in the innermost flow collection, or outside of all. -/
  candidate : Candidate
  /-- The candidates outside of each open flow collection. -/
  outside : List Candidate
  /-- Tokens that may begin a key: their numbers, and how many flow collections are around them. -/
  heads : List (Nat × Nat)
  /-- How many tokens were taken from the queue. -/
  taken : Nat
  queue : List Token

namespace Stream

/-- The stream before its first character. A byte order mark there shifts the lines. -/
def ofInput (input : Input) : Stream where
  spot := ⟨.start, input.chars⟩
  size := input.chars.length
  whole := input.whole
  shifted := input.chars.head? = some '\uFEFF'
  indent := -1
  indents := []
  keyAllowed := true
  level := 0
  candidate := ⟨0, .start, false, false⟩
  outside := []
  heads := []
  taken := 0
  queue := [.streamStart]

/-- Whether a flow collection is open. -/
def inFlow (s : Stream) : Bool :=
  s.level != 0

/-- The number of the next token. -/
def nextNumber (s : Stream) : Nat :=
  s.taken + s.queue.length

/-- Adds a token. -/
def push (s : Stream) (t : Token) : Stream :=
  { s with queue := s.queue ++ [t] }

/-- Puts a token in front of the one with a number. If that was taken, the token comes last. -/
def insert (s : Stream) (number : Nat) (t : Token) : Stream :=
  if number < s.taken then s.push t
  else { s with queue := s.queue.insertIdx (number - s.taken) t }

/-- Passes over characters that end no line. -/
def advance (s : Stream) (n : Nat) : Stream :=
  { s with spot := s.spot.skip n }

/-! ## White space -/

/-- Where in white space the reader is. -/
inductive SpaceMode where
  | outside
  | comment
  /-- Between the lines of one comment. -/
  | between

/-- How far a comment may be from the end of the comment before it. -/
def commentReach : Nat := 512

/-- Whether a comment goes on behind the end of its line. Only white space may come between, tabs
included. -/
def commentGoesOn : List Char → Bool
  | [] => false
  | c :: rest =>
    let isPlainBreak (c : Char) : Bool := c == '\n' || c == '\r'
    let isFiller (c : Char) : Bool := isBlank c || isPlainBreak c
    isPlainBreak c && (rest.dropWhile isFiller).head? == some '#' &&
      (rest.takeWhile isFiller).length + 1 < commentReach

/-- What white space and comments leave over: the place behind them, and whether a key may begin
there. -/
structure Gap where
  spot : Spot
  keyAllowed : Bool

/-- How many characters are looked at to tell a token. -/
def reach : Nat := 4

/-- Skips white space and comments. Outside of flow collections a key may begin on each new line,
and where one may begin, tabs are not skipped. In shifted lines the first character is skipped
too. -/
def skipSpace (shifted flow keyAllowed : Bool) (mode : SpaceMode) (m : Mark) : List Char → Gap
  | [] => ⟨⟨m, []⟩, keyAllowed⟩
  | '\r' :: '\n' :: rest =>
    let next : SpaceMode :=
      match mode with
      | .outside => .outside
      | .comment => if commentGoesOn ('\r' :: '\n' :: rest) then .between else .outside
      | .between => .between
    skipSpace shifted flow (keyAllowed || !flow) next (m.newline 2) rest
  | c :: rest =>
    match mode with
    | .comment =>
      if isBreak c then
        let next : SpaceMode := if commentGoesOn (c :: rest) then .between else .outside
        skipSpace shifted flow (keyAllowed || !flow) next (m.newline 1) rest
      else skipSpace shifted flow keyAllowed .comment m.step rest
    | .between =>
      if isBreak c then skipSpace shifted flow (keyAllowed || !flow) .between (m.newline 1) rest
      else if c == '#' then skipSpace shifted flow keyAllowed .comment m.step rest
      else skipSpace shifted flow keyAllowed .between m.step rest
    | .outside =>
      if shifted && m.column == 0 then
        skipSpace shifted flow keyAllowed .outside m.step rest
      else if isBreak c then
        skipSpace shifted flow (keyAllowed || !flow) .outside (m.newline 1) rest
      else if c == '#' then skipSpace shifted flow keyAllowed .comment m.step rest
      else if c == ' ' || (c == '\t' && (flow || !keyAllowed)) then
        skipSpace shifted flow keyAllowed .outside m.step rest
      else ⟨⟨m, c :: rest⟩, keyAllowed⟩

theorem skipSpace_length (shifted flow keyAllowed : Bool) (mode : SpaceMode) (m : Mark)
    (cs : List Char) :
    (skipSpace shifted flow keyAllowed mode m cs).spot.rest.length ≤ cs.length := by
  fun_induction skipSpace shifted flow keyAllowed mode m cs <;> simp_all <;> omega

/-- The stream at its next token. Lines are no longer shifted once fewer characters are left than
are looked at to tell the token. -/
def atToken (s : Stream) : Stream :=
  let g := skipSpace s.shifted s.inFlow s.keyAllowed .outside s.spot.mark s.spot.rest
  { s with
    spot := g.spot
    keyAllowed := g.keyAllowed
    shifted := s.shifted && reach ≤ g.spot.rest.length }

/-- Skips a comment on the line of a token. Tabs may stand before it. -/
def skipLineComment (s : Stream) : Stream :=
  let blanks := s.spot.run isBlank
  let next := s.spot.skip blanks.length
  if next.first? = some '#' && blanks.length < commentReach then { s with spot := next.skipLine }
  else s

/-! ## Indentation -/

/-- Ends block collections until the column is inside the innermost one. -/
def unrollTo (column : Int) (indent : Int) (indents : List Int) (queue : List Token) :
    Int × List Int × List Token :=
  match indents with
  | [] => (indent, [], queue)
  | outer :: rest =>
    if column < indent then unrollTo column outer rest (queue ++ [.blockEnd])
    else (indent, outer :: rest, queue)

/-- Ends the block collections that a token at a column stands outside of. -/
def unroll (s : Stream) (column : Int) : Stream :=
  if s.inFlow then s
  else
    let (indent, indents, queue) := unrollTo column s.indent s.indents s.queue
    { s with indent, indents, queue }

/-- How many block collections may be open, and how many flow collections. -/
def maxLevel : Nat := 10000

/-- Begins a block collection in front of the token with a number if the column is inside the
innermost one. -/
def roll (s : Stream) (column number : Nat) (start : Token) : Option Stream :=
  if s.inFlow || (column : Int) ≤ s.indent then some s
  else if maxLevel ≤ s.indents.length then none
  else some ({ s with indent := column, indents := s.indent :: s.indents }.insert number start)

/-- Begins a block collection at the present place if it is inside the innermost one. -/
def rollHere (s : Stream) (start : Token) : Option Stream :=
  s.roll s.spot.mark.column s.nextNumber start

/-! ## Keys -/

/-- How many characters a key may have. -/
def keyLimit : Nat := 1024

/-- Whether a key that begins at a candidate could end here. Nothing comes of a candidate that has
to be a key and is not. -/
def reaches (s : Stream) (c : Candidate) : Option Bool :=
  if !c.possible then some false
  else if c.mark.line < s.spot.mark.line || c.mark.index + keyLimit < s.spot.mark.index then
    if c.required then none else some false
  else some true

/-- Gives up the innermost candidate, unless it had to be a key. -/
def dropCandidate (s : Stream) : Option Stream :=
  let c := s.candidate
  if !c.possible then some s
  else if c.required then none
  else some { s with
    candidate := { c with possible := false }
    heads := s.heads.filter (·.1 != c.number) }

/-- Remembers the present place as a candidate, if a key may begin here. -/
def noteCandidate (s : Stream) : Option Stream :=
  if s.keyAllowed then do
    let required := !s.inFlow && s.indent == s.spot.mark.column
    let number := s.nextNumber
    let s ← s.dropCandidate
    return { s with
      candidate := ⟨number, s.spot.mark, required, true⟩
      heads := (number, s.level) :: s.heads }
  else some s

/-- The candidate at a level. -/
def candidateAt? (s : Stream) (level : Nat) : Option Candidate :=
  if level ≤ s.level then (s.candidate :: s.outside)[s.level - level]? else none

/-- Puts a candidate at a level. -/
def setCandidate (s : Stream) (level : Nat) (c : Candidate) : Stream :=
  match (s.candidate :: s.outside).set (s.level - level) c with
  | candidate :: outside => { s with candidate, outside }
  | [] => s

/-- Reads the `:` between a key and its value. A candidate on the same line becomes the key. -/
def value (s : Stream) : Option Stream := do
  let c := s.candidate
  if ← s.reaches c then
    let s ← (s.insert c.number .key).roll c.mark.column c.number .blockMappingStart
    return { s with
      candidate := { c with possible := false }
      heads := s.heads.filter (·.1 != c.number)
      keyAllowed := false }.push .value |>.advance 1
  else
    let s := { s with candidate := { c with possible := false } }
    if !s.inFlow && !s.keyAllowed then none
    else
      let s ← s.rollHere .blockMappingStart
      return { s with keyAllowed := !s.inFlow }.push .value |>.advance 1

/-- Reads the `?` that marks a key. -/
def markedKey (s : Stream) : Option Stream := do
  if !s.inFlow && !s.keyAllowed then none
  else
    let s ← (← s.rollHere .blockMappingStart).dropCandidate
    return { s with keyAllowed := !s.inFlow }.push .key |>.advance 1

/-- Reads the `-` of an item of a block sequence. -/
def entry (s : Stream) : Option Stream := do
  if !s.inFlow && !s.keyAllowed then none
  else
    let s ← (← s.rollHere .blockSequenceStart).dropCandidate
    return { s with keyAllowed := true }.push .blockEntry |>.advance 1

/-! ## Flow collections and documents -/

/-- Reads the bracket that begins a flow collection. -/
def openFlow (s : Stream) (start : Token) : Option Stream := do
  let s ← s.noteCandidate
  if maxLevel ≤ s.level then none
  else return { s with
    level := s.level + 1
    candidate := ⟨s.nextNumber, s.spot.mark, false, false⟩
    outside := s.candidate :: s.outside
    keyAllowed := true }.push start |>.advance 1

/-- Reads the bracket that ends a flow collection. The token that the latest candidate inside began
with does not count as the beginning of a key any more; without any, that is the opening bracket. -/
def closeFlow (s : Stream) (stop : Token) : Option Stream := do
  let s ← s.dropCandidate
  let s := match s.outside with
    | candidate :: outside =>
      { s with
        level := s.level - 1
        candidate
        outside
        heads := s.heads.filter (·.1 != s.candidate.number) }
    | [] => s
  return { s with keyAllowed := false }.push stop |>.advance 1

/-- Reads the comma between the items of a flow collection. -/
def comma (s : Stream) : Option Stream := do
  let s ← s.dropCandidate
  return { s with keyAllowed := true }.push .flowEntry |>.advance 1

/-- Reads a mark that separates documents. -/
def documentMark (s : Stream) (t : Token) : Option Stream := do
  let s ← (s.unroll (-1)).dropCandidate
  return { s with keyAllowed := false }.push t |>.advance 3

/-- Reads a directive. -/
def readDirective (s : Stream) : Option Stream := do
  let s ← (s.unroll (-1)).dropCandidate
  let (t, spot) ← directive (s.spot.skip 1)
  return { s with spot, keyAllowed := false }.push t

/-- Ends the stream. The end counts as a line of its own. -/
def finish (s : Stream) : Option Stream := do
  let m := s.spot.mark
  let mark : Mark := if m.column = 0 then m else ⟨m.line + 1, 0, m.index⟩
  let s ← ({ s with spot := ⟨mark, s.spot.rest⟩ }.unroll (-1)).dropCandidate
  return { s with keyAllowed := false }.push .streamEnd

/-! ## Scalars, anchors and tags -/

/-- Takes over a scalar that is not written as a block. Behind the line ends that follow a plain
one, a key may begin; else a comment may follow. -/
def takeScalar (s : Stream) (read : Option (Fold × Spot)) (plain : Bool) : Option Stream := do
  let (fold, spot) ← read
  let s := { s with spot, keyAllowed := fold.broken }.push (.scalar fold.text plain)
  return if fold.broken then s else s.skipLineComment

/-- Reads a scalar at the present place. -/
def scalar (s : Stream) : Option Stream := do
  let s ← s.noteCandidate
  let m := s.spot.mark
  match s.spot.rest with
  | '"' :: rest => s.takeScalar (doubleQuoted .empty m.step rest) false
  | '\'' :: rest => s.takeScalar (singleQuoted .empty m.step rest) false
  | rest => s.takeScalar (plainScalar s.inFlow (s.indent + 1) true .empty m rest) true

/-- Reads a block scalar. -/
def blockScalar (s : Stream) (folded : Bool) : Option Stream := do
  let s ← s.dropCandidate
  let (text, spot) ← Block.read folded s.indent (s.spot.skip 1)
  return { s with spot, keyAllowed := true }.push (.scalar text false)

/-- Reads an anchor or alias. -/
def name (s : Stream) (token : Text → Token) : Option Stream := do
  let s ← s.noteCandidate
  let (name, spot) ← anchorName (s.spot.skip 1)
  return { s with spot, keyAllowed := false }.push (token name)

/-- Reads a tag. -/
def readTag (s : Stream) : Option Stream := do
  let s ← s.noteCandidate
  let (t, spot) ← tag s.spot
  return { s with spot, keyAllowed := false }.push t

/-- The characters that no plain scalar begins with. -/
def indicators : List Char :=
  ['-', '?', ':', ',', '[', ']', '{', '}', '#', '&', '*', '!', '|', '>', '\'', '"', '%', '@',
    '\x60', '\t']

/-- Whether a plain scalar may begin here. A dash, and in block context also a question mark or
colon, is as good as a letter if no white space follows. -/
def startsPlain (flow : Bool) (c : Char) (rest : List Char) : Bool :=
  !indicators.contains c || (c == '-' && !atSpace rest) ||
    (!flow && (c == '?' || c == ':') && !atSpace rest)

/-! ## Tokens one by one -/

/-- Reads the token at the present place. A comment may follow it on its line, but the one behind
the `-` of an item belongs to the item. -/
def token (s : Stream) : Option Stream :=
  let m := s.spot.mark
  match s.spot.rest with
  | [] => s.finish
  | c :: rest =>
    if m.column == 0 && c == '%' then s.readDirective
    else if m.column == 0 && atDocumentMark (c :: rest) then
      s.documentMark (if c == '-' then .documentStart else .documentEnd)
    else if c == '[' then (s.openFlow .flowSequenceStart).map skipLineComment
    else if c == '{' then (s.openFlow .flowMappingStart).map skipLineComment
    else if c == ']' then (s.closeFlow .flowSequenceEnd).map skipLineComment
    else if c == '}' then (s.closeFlow .flowMappingEnd).map skipLineComment
    else if c == ',' then s.comma.map skipLineComment
    else if c == '-' && atSpace rest then s.entry
    else if c == '?' && (s.inFlow || atSpace rest) then s.markedKey.map skipLineComment
    else if c == ':' && (s.inFlow || atSpace rest) then s.value.map skipLineComment
    else if c == '*' then (s.name .alias).map skipLineComment
    else if c == '&' then (s.name .anchor).map skipLineComment
    else if c == '!' then s.readTag.map skipLineComment
    else if (c == '|' || c == '>') && !s.inFlow then s.blockScalar (c == '>')
    else if c == '"' || c == '\'' || startsPlain s.inFlow c rest then s.scalar
    else none

/-- Cuts the next token. Where the text does not end with its characters, none of them may be
missing. -/
def fetch (s : Stream) : Option Stream := do
  let s := s.atToken
  if !s.whole && s.spot.rest.length < reach then none
  else
    let s ← (s.unroll s.spot.mark.column).token
    if !s.whole && s.spot.rest.isEmpty then none else some s

/-- How many tokens are cut ahead. -/
def lookahead : Nat := 3

/-- Whether the first token cannot be told yet. A candidate that it begins with and that no key can
begin at any more is given up. -/
def waits (s : Stream) : Option (Bool × Stream) :=
  if s.queue.length < lookahead then some (true, s)
  else
    match s.heads.lookup s.taken with
    | none => some (false, s)
    | some level =>
      match s.candidateAt? level with
      | none => some (false, s)
      | some c =>
        match s.reaches c with
        | none => none
        | some true => some (true, s)
        | some false => some (false, s.setCandidate level { c with possible := false })

/-- Cuts tokens until the stream is ready, at most `bound` many. -/
def fill (s : Stream) : (bound : Nat) → Option Stream
  | 0 => none
  | bound + 1 =>
    match s.waits with
    | none => none
    | some (false, s) => some s
    | some (true, s) =>
      match s.fetch with
      | none => none
      | some s => s.fill bound

/-- The stream with enough tokens in the queue to tell the first one. -/
def ready (s : Stream) : Option Stream :=
  s.fill (s.size + 2 * lookahead)

/-- The first token of a stream that is ready. -/
def first (s : Stream) : Token :=
  s.queue.headD .streamEnd

/-- The stream without its first token. -/
def pop (s : Stream) : Stream :=
  { s with
    queue := s.queue.tail
    taken := s.taken + 1
    heads := s.heads.filter (s.taken < ·.1) }

end Stream

end Offside.Yaml
