import Offside.Yaml.Meaning
import Offside.Yaml.Stream

/-!
# YAML nodes

The first document of a stream as a tree of nodes. What follows the first document is looked at no
further than telling the next token takes; beyond that it may be anything.

* `Node` is a node: a scalar with its meaning, a sequence, a mapping, or an alias with the node it
  stands for, which is absent for an alias inside that node itself.
* `Reader` is a step in the reading of a document; it holds the stream, the anchored nodes and the
  handles.
* `Node.read` and the readers behind it follow the collections; each of their steps uses up one unit
  of fuel.
* `read` is the whole, with fuel for every step that the characters of a text can take
  (`stepsPerChar`).

Out of scope: the documents behind the first.
-/

namespace Offside.Yaml

/-- A node of a document. -/
inductive Node where
  | scalar (text : Text) (meaning : Meaning)
  | sequence (items : List Node)
  | mapping (entries : List (Node × Node))
  /-- Another node by its name. There is none if it contains this one. -/
  | alias (name : Text) (target : Option Node)

/-- A document in the course of being read. -/
structure Reading where
  stream : Stream
  /-- The nodes with a name, the latest first. A node has none before it is read to its end. -/
  anchors : List (Text × Option Node)
  /-- What the handles in front of tags stand for. -/
  handles : List (Text × Text)

/-- A step in the reading of a document. -/
abbrev Reader := StateT Reading Option

namespace Reader

/-- Looks at the next token. -/
def peek : Reader Token := do
  let r ← get
  let stream ← r.stream.ready
  set { r with stream }
  return stream.first

/-- Passes the token that was looked at. -/
def pop : Reader Unit :=
  modify fun r => { r with stream := r.stream.pop }

/-- Whether the next token is one of the choices. -/
def nextIn (choices : List Token) : Reader Bool := do
  return choices.contains (← peek)

/-- Gives up. -/
def fail {α : Type} : Reader α := fun _ => none

/-- The node with a name, if it is read to its end. Some node has to have the name. -/
def anchored (name : Text) : Reader (Option Node) := do
  (← get).anchors.lookup name

/-- Reads a node that has a name, which stands for the node from then on. -/
def withAnchor (name : Option Text) (node : Reader Node) : Reader Node :=
  match name with
  | none => node
  | some name => do
    let before := (← get).anchors.length
    modify fun r => { r with anchors := (name, none) :: r.anchors }
    let n ← node
    modify fun r => { r with
      anchors := (r.anchors.reverse.set before (name, some n)).reverse }
    return n

/-- The full name of a tag. -/
def fullTag (handle ending : Text) : Reader Text := do
  if handle.isEmpty then return ending
  else
    let front ← (← get).handles.lookup handle
    let tag := front ++ ending
    if tag.isEmpty then fail else return tag

end Reader

namespace Node

open Reader

/-- A scalar with a tag; without one the tag is empty. -/
def ofScalar (tag text : Text) (plain : Bool) : Node :=
  .scalar text (Yaml.meaning tag text plain)

/-- The node that stands where nothing is written. -/
def empty : Node := ofScalar [] [] true

/-- Where a node stands: which collections it may be without brackets. -/
inductive Place where
  /-- In a flow collection: none. -/
  | flow
  /-- In a document or as an item: an indented one. -/
  | block
  /-- As a key or value: also a sequence that is indented no further. -/
  | entry
  deriving DecidableEq

/-- The name and the tag in front of a node. -/
structure Properties where
  anchor : Option Text
  tag : Option Text

/-- Reads the anchor in front of a node, if there is one. -/
def anchor : Reader (Option Text) := do
  match ← peek with
  | .anchor name => pop; return some name
  | _ => return none

/-- Reads the tag in front of a node, if there is one. -/
def tag : Reader (Option (Text × Text)) := do
  match ← peek with
  | .tag handle ending => pop; return some (handle, ending)
  | _ => return none

/-- Reads what stands in front of a node: an anchor and a tag in any order. -/
def properties : Reader Properties := do
  let before ← anchor
  let tag ← tag
  let anchor ← if before.isSome || tag.isNone then pure before else anchor
  match tag with
  | none => return ⟨anchor, none⟩
  | some (handle, ending) => return ⟨anchor, some (← fullTag handle ending)⟩

/-- A node, or the empty one if one of the tokens that end it stands here. -/
def optional (stops : List Token) (node : Reader Node) : Reader Node := do
  if ← nextIn stops then return empty else node

/-- Passes the comma before each item of a flow collection but the first. -/
def flowNext (first : Bool) (stop : Token) : Reader Unit := do
  if first || (← nextIn [stop]) then return ()
  else if ← nextIn [.flowEntry] then pop
  else fail

mutual

/-- Reads a node. Each step uses up one unit of `fuel`. -/
def read (fuel : Nat) (place : Place) : Reader Node :=
  match fuel with
  | 0 => fail
  | fuel + 1 => do
    match ← peek with
    | .alias name =>
      pop
      return .alias name (← anchored name)
    | _ =>
      let p ← properties
      withAnchor p.anchor (content fuel place p)

/-- Reads a node behind its properties. -/
def content (fuel : Nat) (place : Place) (p : Properties) : Reader Node :=
  match fuel with
  | 0 => fail
  | fuel + 1 => do
    let next ← peek
    match next with
    | .scalar text plain =>
      pop
      return ofScalar (p.tag.getD []) text plain
    | .flowSequenceStart =>
      pop
      return .sequence (← flowItems fuel true)
    | .flowMappingStart =>
      pop
      return .mapping (← flowEntries fuel true)
    | _ =>
      if next = .blockEntry && place = .entry then return .sequence (← indentlessItems fuel)
      else if next = .blockSequenceStart && place ≠ .flow then
        pop
        return .sequence (← blockItems fuel)
      else if next = .blockMappingStart && place ≠ .flow then
        pop
        return .mapping (← blockEntries fuel)
      else if p.anchor.isSome || p.tag.isSome then return ofScalar (p.tag.getD []) [] true
      else fail

/-- Reads the items of a block sequence and its end. -/
def blockItems (fuel : Nat) : Reader (List Node) :=
  match fuel with
  | 0 => fail
  | fuel + 1 => do
    match ← peek with
    | .blockEntry =>
      pop
      let item ← optional [.blockEntry, .blockEnd] (read fuel .block)
      return item :: (← blockItems fuel)
    | .blockEnd => pop; return []
    | _ => fail

/-- Reads the items of a sequence that stands at the column of the key before it. -/
def indentlessItems (fuel : Nat) : Reader (List Node) :=
  match fuel with
  | 0 => fail
  | fuel + 1 => do
    match ← peek with
    | .blockEntry =>
      pop
      let item ← optional [.blockEntry, .key, .value, .blockEnd] (read fuel .block)
      return item :: (← indentlessItems fuel)
    | _ => return []

/-- Reads the entries of a block mapping and its end. -/
def blockEntries (fuel : Nat) : Reader (List (Node × Node)) :=
  match fuel with
  | 0 => fail
  | fuel + 1 => do
    match ← peek with
    | .key =>
      pop
      let key ← optional [.key, .value, .blockEnd] (read fuel .entry)
      let value ← blockValue fuel
      return (key, value) :: (← blockEntries fuel)
    | .blockEnd => pop; return []
    | _ => fail

/-- Reads the value of an entry of a block mapping. -/
def blockValue (fuel : Nat) : Reader Node :=
  match fuel with
  | 0 => fail
  | fuel + 1 => do
    if ← nextIn [.value] then
      pop
      optional [.key, .value, .blockEnd] (read fuel .entry)
    else return empty

/-- Reads the items of a flow sequence and its end. An item may be a single entry of a mapping. -/
def flowItems (fuel : Nat) (first : Bool) : Reader (List Node) :=
  match fuel with
  | 0 => fail
  | fuel + 1 => do
    flowNext first .flowSequenceEnd
    match ← peek with
    | .flowSequenceEnd => pop; return []
    | .key =>
      pop
      let key ←
        if ← nextIn [.value, .flowEntry, .flowSequenceEnd] then
          pop
          pure empty
        else read fuel .flow
      let value ← flowValue fuel .flowSequenceEnd
      return .mapping [(key, value)] :: (← flowItems fuel false)
    | _ =>
      let item ← read fuel .flow
      return item :: (← flowItems fuel false)

/-- Reads the entries of a flow mapping and its end. A key may stand without a value. -/
def flowEntries (fuel : Nat) (first : Bool) : Reader (List (Node × Node)) :=
  match fuel with
  | 0 => fail
  | fuel + 1 => do
    flowNext first .flowMappingEnd
    match ← peek with
    | .flowMappingEnd => pop; return []
    | .key =>
      pop
      let key ← optional [.value, .flowEntry, .flowMappingEnd] (read fuel .flow)
      let value ← flowValue fuel .flowMappingEnd
      return (key, value) :: (← flowEntries fuel false)
    | _ =>
      let key ← read fuel .flow
      let _ ← peek
      return (key, empty) :: (← flowEntries fuel false)

/-- Reads the value of an entry in a flow collection. -/
def flowValue (fuel : Nat) (stop : Token) : Reader Node :=
  match fuel with
  | 0 => fail
  | fuel + 1 => do
    if ← nextIn [.value] then
      pop
      optional [.flowEntry, stop] (read fuel .flow)
    else return empty

end

/-! ## Documents -/

/-- The handles that every document knows. -/
def standardHandles : List (Text × Text) :=
  [("!", "!"), ("!!", "tag:yaml.org,2002:")]

/-- Reads the directives in front of a document. There may be one version, which has to be 1.1, and
one meaning for each handle. -/
def directives (versioned : Bool) (handles : List (Text × Text)) :
    (bound : Nat) → Reader (List (Text × Text))
  | 0 => fail
  | bound + 1 => do
    match ← peek with
    | .version major minor =>
      if versioned || major ≠ 1 || minor ≠ 1 then fail
      else
        pop
        directives true handles bound
    | .tagHandle handle meaning =>
      if (handles.lookup handle).isSome then fail
      else
        pop
        directives versioned (handles ++ [(handle, meaning)]) bound
    | _ => return handles

/-- Whether a token ends a document, or begins another one. -/
def isDocumentToken : Token → Bool
  | .version .. | .tagHandle .. | .documentStart | .documentEnd | .streamEnd => true
  | _ => false

/-- Reads the first document, if there is one. -/
def document (bound : Nat) : Reader (Option Node) := do
  let _ ← peek
  pop
  match ← peek with
  | .streamEnd => return none
  | .version .. | .tagHandle .. | .documentStart =>
    let handles ← directives false [] bound
    modify fun r => { r with handles := handles ++ standardHandles }
    if ← nextIn [.documentStart] then
      pop
      let node ← if isDocumentToken (← peek) then pure empty else read bound .block
      let _ ← peek
      return some node
    else fail
  | _ =>
    let node ← read bound .block
    let _ ← peek
    return some node

end Node

/-- How many steps the reading of each character may take. A character makes at most four tokens,
and a token is looked at in at most four steps. -/
def stepsPerChar : Nat := 16

/-- Reads the first document of a text, if there is one. Nothing comes of a text with a fault in its
first document. -/
def read (t : Text) : Option (Option Node) :=
  let input := Input.ofText t
  let start : Reading := ⟨.ofInput input, [], Node.standardHandles⟩
  (Node.document (stepsPerChar * (input.chars.length + 1)) start).map (·.1)

end Offside.Yaml
