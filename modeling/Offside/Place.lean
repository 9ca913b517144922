import Offside.Text.Basic

/-!
# Places in a file system

A path leads to a place: from the root, or from the current folder, some steps up and then down
along names. A folder that a place is reached from by steps up alone, and the root, are known to
exist; of what else they hold only what is told is known.

* `Place.enter` is one part of a path: the empty part and a point stay, two points go up, and any
  other part goes down. `Place.ofPath` is a whole path.
* `Place.folders` are the folders on the way to a place.
* `Place.sink`, `Place.input`, `Place.output` and `Place.errors` are the devices that a path can
  name.

Results:
* `Place.parent_child`: a step down along a name and a step up cancel out.

Out of scope: links, so a step up always undoes the step down before it.
-/

namespace Offside

/-- Where the names of a place are looked up. -/
inductive Place.Base where
  | root
  /-- The folder that many steps above the current one. -/
  | above (steps : Nat)
  deriving DecidableEq, Repr

/-- A place of a file system. -/
structure Place where
  base : Place.Base
  /-- The names that lead down from the base. -/
  names : List Text
  deriving DecidableEq, Repr

namespace Place

/-- The slash between the parts of a path. -/
def slash : UInt8 := 0x2F

/-- The current folder. -/
def current : Place := ⟨.above 0, []⟩

/-- The root of the file system, which is its own parent. -/
def top : Place := ⟨.root, []⟩

/-- The device with a name. -/
def device (name : Text) : Place := ⟨.root, ["dev", name]⟩

/-- The file that is always empty and keeps nothing. -/
def sink : Place := device "null"

/-- The file that stands for standard input. -/
def input : Place := device "stdin"

/-- The file that stands for standard output. -/
def output : Place := device "stdout"

/-- The file that stands for standard error. -/
def errors : Place := device "stderr"

/-- Whether a place is a device, which keeps nothing that is written to it. -/
def isDevice (p : Place) : Bool :=
  [sink, input, output, errors].contains p

/-- The place one step down. -/
def child (p : Place) (name : Text) : Place :=
  { p with names := p.names ++ [name] }

/-- The place one step up. -/
def parent (p : Place) : Place :=
  match p.names, p.base with
  | [], .root => p
  | [], .above steps => { p with base := .above (steps + 1) }
  | names, _ => { p with names := names.dropLast }

/-- The place that one part of a path leads to. -/
def enter (p : Place) (part : Text) : Place :=
  if part.isEmpty || part == ("." : Text) then p
  else if part == (".." : Text) then p.parent
  else p.child part

/-- The place that a path starts from. -/
def start (path : Text) : Place :=
  if path.head? = some slash then top else current

/-- The place that a path leads to if all folders on the way exist. -/
def ofPath (path : Text) : Place :=
  (List.splitOn slash path).foldl enter (start path)

/-- The folders below the base on the way to a place. -/
def folders (p : Place) : List Place :=
  (List.range p.names.length).map fun n => { p with names := p.names.take n }

/-- Whether a place is below the current folder. -/
def isLocal (p : Place) : Bool :=
  p.base = .above 0

theorem parent_child (p : Place) (name : Text) : (p.child name).parent = p := by
  obtain ⟨base, names⟩ := p
  have step : (names ++ [name]).dropLast = names := List.dropLast_concat
  cases names with
  | nil => cases base <;> rfl
  | cons first rest => cases base <;> exact congrArg (Place.mk _) step

end Place

end Offside
