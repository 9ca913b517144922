import Offside.Settings.Basic
import Offside.Toml.Document
import Offside.Yaml.Node

/-!
# Settings from documents

Model of what a decoded document does to a `Config` (specification, 9.3): the fields with their
names, and the way the decoders of the two notations fill them in.

A document has a section for each part of the program, and a section has one field. A document
changes the settings it mentions and leaves the others.

* `Field` has the fields, with the names of their sections and their own.
* `addToml` takes over a TOML document. Names are compared without regard to case, a value of the
  wrong kind is a fault, and names that are not known change nothing; `knowsKey` tells which these
  are, and the caller reports the first of them.
* `addYaml` takes over a YAML document. Names are exact, an unknown or repeated one is a fault, and
  a value that is left empty changes nothing.
* `addEntries` takes over the entries of a YAML mapping. Entries that are merged into it count where
  it has none of their name; merging may nest, which the bound limits.
* `setYaml` has the values that fit a field: a number for the tab width, also one with a fraction,
  which is cut off, and the text of any other scalar for the two texts.

Out of scope: sections and fields of any other type; a document's values beyond those a field can
take are faults without more ado.
-/

namespace Offside.Settings

/-- The fields of a document. -/
inductive Field where
  | tabWidth
  | targetTriple
  | format
  deriving DecidableEq, Repr

namespace Field

/-- All fields. -/
def all : List Field := [tabWidth, targetTriple, format]

/-- The section that a field stands in. -/
def sectionName : Field → Text
  | tabWidth => "lexer"
  | targetTriple => "codegen"
  | format => "output"

/-- The name of a field in its section. -/
def name : Field → Text
  | tabWidth => "tab_width"
  | targetTriple => "target_triple"
  | format => "format"

end Field

/-- The settings with another tab width, if the number is a signed word. -/
def withColumns (s : Settings) (n : Int) : Option Settings :=
  (Word.ofInt? n).map fun tabWidth => { s with tabWidth }

/-- The settings with another text for a field that is one. -/
def withText (s : Settings) (field : Field) (t : Text) : Option Settings :=
  match field with
  | .tabWidth => none
  | .targetTriple => some { s with targetTriple := t }
  | .format => some { s with format := t }

/-! ## TOML -/

/-- Whether two names are the same but for the case of their letters. -/
def sameName (x y : Text) : Bool :=
  x.lower == y.lower

/-- Sets a field to a value of a TOML document. -/
def setToml (s : Settings) (field : Field) : Toml.Node → Option Settings
  | .integer n => if field = .tabWidth then s.withColumns n else none
  | .string t => s.withText field t
  | _ => none

/-- Takes over a TOML section. -/
def addTomlSection (s : Settings) (field : Field) : Toml.Node → Option Settings
  | .table entries =>
    entries.foldlM (fun s (name, node) =>
      if sameName name field.name then s.setToml field node else some s) s
  | _ => none

/-- Takes over a TOML document. -/
def addToml (s : Settings) (root : Toml.Table) : Option Settings :=
  root.foldlM (fun s (name, node) =>
    match Field.all.find? fun field => sameName name field.sectionName with
    | some field => s.addTomlSection field node
    | none => some s) s

/-- Whether a key names a section or field that a TOML document has. -/
def knowsKey (root : Toml.Table) : Toml.Key → Bool
  | [sectionName] =>
    (root.lookup sectionName).isSome &&
      Field.all.any fun field => sameName sectionName field.sectionName
  | [sectionName, name] =>
    (match root.lookup sectionName with
      | some (.table entries) => (entries.lookup name).isSome
      | _ => false) &&
      Field.all.any fun field =>
        sameName sectionName field.sectionName && sameName name field.name
  | _ => false

/-! ## YAML -/

/-- The node that a node stands for: an alias for its target. -/
def target? : Yaml.Node → Option Yaml.Node
  | .alias _ target => target
  | node => some node

/-- Whether a node stands for nothing. -/
def isNull (node : Yaml.Node) : Bool :=
  match target? node with
  | some (.scalar _ .null) => true
  | _ => false

/-- The name that a key spells; nothing comes of a key that is no scalar. -/
def keyName? (key : Yaml.Node) : Option Text :=
  match target? key with
  | some (.scalar _ .unfit) => none
  | some (.scalar _ (.binary bytes)) => some bytes
  | some (.scalar text _) => some text
  | _ => none

/-- Whether two keys are written the same. All sequences count as the same, and all mappings. -/
def sameKey : Yaml.Node → Yaml.Node → Bool
  | .scalar a _, .scalar b _ => a == b
  | .sequence _, .sequence _ => true
  | .mapping _, .mapping _ => true
  | .alias a _, .alias b _ => a == b
  | _, _ => false

/-- The entries of a mapping. -/
abbrev Entries := List (Yaml.Node × Yaml.Node)

/-- Whether no two keys are written the same. -/
def distinctKeys : Entries → Bool
  | [] => true
  | (key, _) :: rest => rest.all (fun (other, _) => !sameKey key other) && distinctKeys rest

/-- Whether a key marks entries that are merged into the mapping. -/
def isMerge : Yaml.Node → Bool
  | .scalar _ .merge => true
  | _ => false

/-- The mappings that are merged: one, or a sequence of them. -/
def mergedMappings? (node : Yaml.Node) : Option (List Entries) :=
  let mapping? (node : Yaml.Node) : Option Entries :=
    match target? node with
    | some (.mapping entries) => some entries
    | _ => none
  match node with
  | .sequence items => items.mapM mapping?
  | node => (mapping? node).map ([·])

/-- Settings in the course of being changed, and the names that have their say already. -/
structure Change where
  settings : Settings
  names : List Text

/-- Takes over one entry of a mapping. An entry without a name changes nothing. A name that had its
say is a fault, but in merged entries it changes nothing. -/
def addEntry (add : Settings → Text → Yaml.Node → Option Settings) (merging : Bool) (c : Change)
    (entry : Yaml.Node × Yaml.Node) : Option Change := do
  if isMerge entry.1 || isNull entry.1 then some c
  else
    let name ← keyName? entry.1
    if c.names.contains name then if merging then some c else none
    else return ⟨← add c.settings name entry.2, name :: c.names⟩

/-- Takes over the entries of a mapping and then those that are merged into it, in at most `bound`
levels. -/
def addEntries (add : Settings → Text → Yaml.Node → Option Settings) (merging : Bool) (c : Change)
    (entries : Entries) : (bound : Nat) → Option Change
  | 0 => none
  | bound + 1 =>
    if distinctKeys entries then do
      let c ← entries.foldlM (addEntry add merging) c
      match entries.find? fun (key, _) => isMerge key with
      | none => some c
      | some (_, merged) =>
        (← mergedMappings? merged).foldlM
          (fun c entries => addEntries add true c entries bound) c
    else none

/-- Sets a field to a value of a YAML document. -/
def setYaml (s : Settings) (field : Field) (node : Yaml.Node) : Option Settings := do
  match ← target? node with
  | .scalar text meaning =>
    match meaning, field with
    | .null, _ => some s
    | .unfit, _ => none
    | .integer n, .tabWidth => s.withColumns n
    | .float x, .tabWidth => (Yaml.floatToWord? x).bind s.withColumns
    | .binary bytes, field => s.withText field bytes
    | _, field => s.withText field text
  | _ => none

/-- Takes over a YAML mapping, or nothing. -/
def addYamlMapping (s : Settings) (bound : Nat) (node : Yaml.Node)
    (add : Settings → Text → Yaml.Node → Option Settings) : Option Settings := do
  match ← target? node with
  | .mapping entries => return (← addEntries add false ⟨s, []⟩ entries bound).settings
  | node => if isNull node then some s else none

/-- Takes over a YAML section. -/
def addYamlSection (s : Settings) (bound : Nat) (field : Field) (node : Yaml.Node) :
    Option Settings :=
  s.addYamlMapping bound node fun s name node =>
    if name = field.name then s.setYaml field node else none

/-- Takes over a YAML document that nests at most `bound` mappings. -/
def addYaml (s : Settings) (bound : Nat) (node : Yaml.Node) : Option Settings :=
  s.addYamlMapping bound node fun s name node => do
    s.addYamlSection bound (← Field.all.find? (·.sectionName = name)) node

end Offside.Settings
