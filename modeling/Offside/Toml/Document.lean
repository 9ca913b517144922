import Offside.Toml.Grammar

/-!
# TOML documents

The statements of a file are carried out one by one on a tree of tables. A name may be given a value
once. A table that exists only because a longer key passed through it is *implied* and may still be
opened once; a key through existing tables implies them anew. A name that is marked as an array may
be given another value, which takes its place.

The mark of a name belongs to its path, where an empty name adds nothing to the path of its table.
So the value of an empty name marks the table it stands in.

* `Table` is a list of names with what they stand for, in the order of the file, and `Node` what a
  name stands for. `at?`, `plant?` and `modifyAt?` find and change a table below a path.
* `Document` is the tree with the marks and with all keys of the file in their order, those of
  replaced values too: the first unknown one of them is reported.
* `openTable?` and `openArrayTable?` carry out the two kinds of headers and `setPair?` a value, with
  the values of arrays and inline tables in it (`evaluate?`). `run?` goes through the statements.
* `read` is the document of a file, or nothing if the file is faulty.
-/

namespace Offside.Toml

/-- What a name stands for. -/
inductive Node where
  | string (text : Text)
  | integer (value : Int)
  /-- A value of another kind. -/
  | other
  | table (entries : List (Text × Node))
  /-- An array of tables opened one by one. -/
  | tables (items : List (List (Text × Node)))
  deriving Repr, Inhabited

/-- The names of a table and what they stand for. -/
abbrev Table := List (Text × Node)

namespace Table

/-- Gives a name a new meaning, in its old place if it has one. -/
def put (t : Table) (name : Text) (node : Node) : Table :=
  match t with
  | [] => [(name, node)]
  | (n, old) :: rest => if n = name then (n, node) :: rest else (n, old) :: put rest name node

/-- The table that a path leads to. An array of tables stands for its last one. -/
def at? (t : Table) : Key → Option Table
  | [] => some t
  | name :: path =>
    match t.lookup name with
    | some (.table sub) => at? sub path
    | some (.tables subs) =>
      match subs.getLast? with
      | some sub => at? sub path
      | none => none
    | _ => none

/-- Gives a name below a path a meaning. The tables on the path are made if they do not exist. -/
def plant? (t : Table) (name : Text) (node : Node) : Key → Option Table
  | [] => some (t.put name node)
  | part :: path =>
    match t.lookup part with
    | none => (plant? [] name node path).map fun sub => t.put part (.table sub)
    | some (.table sub) => (plant? sub name node path).map fun sub => t.put part (.table sub)
    | some _ => none

/-- Changes the table that a path leads to. -/
def modifyAt? (f : Table → Option Table) (t : Table) : Key → Option Table
  | [] => f t
  | name :: path =>
    match t.lookup name with
    | some (.table sub) => (modifyAt? f sub path).map fun sub => t.put name (.table sub)
    | some (.tables subs) =>
      match subs.getLast? with
      | some sub =>
        (modifyAt? f sub path).map fun sub => t.put name (.tables (subs.dropLast ++ [sub]))
      | none => none
    | _ => none

end Table

/-- A tree of tables under construction. -/
structure Document where
  root : Table
  /-- Tables that are implied by longer keys. -/
  implied : List Key
  /-- Keys that are marked as arrays. -/
  arrays : List Key
  /-- All keys of the file in their order. -/
  keys : List Key

namespace Document

/-- The document without keys. -/
def empty : Document := ⟨[], [], [], []⟩

/-- Marks a table as implied. -/
def imply (d : Document) (key : Key) : Document :=
  { d with implied := key :: d.implied }

/-- Takes the mark of a table away. -/
def unimply (d : Document) (key : Key) : Document :=
  { d with implied := d.implied.filter (· != key) }

/-- Remembers a key of the file. -/
def record (d : Document) (key : Key) : Document :=
  { d with keys := d.keys ++ [key] }

/-- The key whose mark the value of a name in the table `path` changes. -/
def markedKey (path : Key) (name : Text) : Key :=
  if !name.isEmpty then path ++ [name] else if path.isEmpty then [[]] else path

/-- Marks the key of a name as an array, or takes the mark away. -/
def mark (d : Document) (path : Key) (name : Text) (isArray : Bool) : Document :=
  let key := markedKey path name
  let others := d.arrays.filter (· != key)
  { d with arrays := if isArray then key :: others else others }

/-- Gives a name of an existing table a value. A name that has one is refused, unless it is marked
as an array, whose place the value takes, or is an implied table, which then stays as it is. -/
def assign? (d : Document) (path : Key) (name : Text) (node : Node) : Option Document := do
  let t ← d.root.at? path
  let key := path ++ [name]
  let put : Option Document := do
    let root ← d.root.modifyAt? (fun t => some (t.put name node)) path
    some { d with root }
  match t.lookup name with
  | none => put
  | some _ =>
    if key ∈ d.arrays then put.map (·.unimply key)
    else if key ∈ d.implied then some (d.unimply key)
    else none

/-- Makes the tables on a path that do not exist yet; they are implied. -/
def establish? (d : Document) (here : Key) : Key → Option Document
  | [] => some d
  | name :: rest => do
    let t ← d.root.at? here
    let key := here ++ [name]
    let d ← match t.lookup name with
      | none => do
        let root ← d.root.modifyAt? (fun t => some (t.put name (.table []))) here
        some ({ d with root }.imply key)
      | some _ => some d
    let _ ← d.root.at? key
    d.establish? key rest

/-- Opens the table with a key. -/
def openTable? (d : Document) (key : Key) : Option Document := do
  let name ← key.getLast?
  let d ← d.establish? [] key.dropLast
  d.assign? key.dropLast name (.table [])

/-- Opens a further table of an array of tables. -/
def openArrayTable? (d : Document) (key : Key) : Option Document := do
  let name ← key.getLast?
  let d ← d.establish? [] key.dropLast
  let root ← d.root.modifyAt? (fun t =>
      match t.lookup name with
      | none => some (t.put name (.tables [[]]))
      | some (.tables subs) => some (t.put name (.tables (subs ++ [[]])))
      | some _ => none) key.dropLast
  some { d with root }

/-- Passes through the tables in front of the last part of a key. -/
def passThrough? (d : Document) (here : Key) : Key → Option Document
  | [] => some d
  | name :: rest => do
    let key := here ++ [name]
    let d ← (d.imply key).openTable? key
    d.passThrough? key rest

/-- Whether a value is an array. -/
def isArrayValue : Value → Bool
  | .array _ => true
  | _ => false

/-- Prepares for a value of the key `key` below the table `here`: passes through its tables and
remembers it. The answer has the path of the last table and the name in it. -/
def prepare? (d : Document) (here key : Key) : Option (Document × Key × Text) := do
  let name ← key.getLast?
  let path := here ++ key.dropLast
  let d ← d.passThrough? here key.dropLast
  some (d.record (path ++ [name]), path, name)

/-- Gives a name its value and marks it accordingly. -/
def finish? (d : Document) (path : Key) (name : Text) (v : Value) (node : Node) : Option Document :=
  (d.assign? path name node).map (·.mark path name (isArrayValue v))

mutual

/-- What a value of a name in the table `path` stands for. The entries of an inline table become
entries of the document, and are also gathered into a table of their own, which counts if the name
was marked as an array. -/
def evaluate? (d : Document) (path : Key) (name : Text) (inArray : Bool) :
    Value → Option (Document × Node)
  | .string text => some (d, .string text)
  | .integer n => some (d, .integer n)
  | .other => some (d, .other)
  | .array items =>
    (evaluateItems? (d.mark path name true) path name items).map fun d => (d, .other)
  | .table entries =>
    let key := path ++ [name]
    let d := d.imply key
    match if inArray then d.openArrayTable? key else d.openTable? key with
    | none => none
    | some d => (setEntries? d key [] entries).map fun (d, gathered) => (d, .table gathered)

/-- Goes through the items of an array. -/
def evaluateItems? (d : Document) (path : Key) (name : Text) : List Value → Option Document
  | [] => some d
  | v :: vs =>
    match evaluate? d path name true v with
    | none => none
    | some (d, _) => evaluateItems? d path name vs

/-- Sets the entries of an inline table, which are added to those gathered. -/
def setEntries? (d : Document) (here : Key) (gathered : Table) :
    List (Key × Value) → Option (Document × Table)
  | [] => some (d, gathered)
  | (key, v) :: rest =>
    match d.prepare? here key with
    | none => none
    | some (d, path, name) =>
      match evaluate? d path name false v with
      | none => none
      | some (d, node) =>
        match d.finish? path name v node, gathered.plant? name node key.dropLast with
        | some d, some gathered => setEntries? d here gathered rest
        | _, _ => none

end

/-- Gives the key `key` below the table `here` a value. -/
def setPair? (d : Document) (here key : Key) (v : Value) : Option Document := do
  let (d, path, name) ← d.prepare? here key
  let (d, node) ← d.evaluate? path name false v
  d.finish? path name v node

/-- Carries out statements in the table `here`. -/
def run? (d : Document) (here : Key) : List Statement → Option Document
  | [] => some d
  | .header key :: rest => do
    let d ← d.openTable? key
    ((d.mark key [] false).record key).run? key rest
  | .arrayHeader key :: rest => do
    let d ← d.openArrayTable? key
    ((d.mark key [] false).record key).run? key rest
  | .pair key v :: rest => do
    let d ← d.setPair? here key v
    d.run? here rest

end Document

/-- The document of a TOML file. -/
def read (file : Text) : Option Document := do
  Document.empty.run? [] (← readStatements file)

end Offside.Toml
