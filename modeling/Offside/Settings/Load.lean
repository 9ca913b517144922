import Offside.Directory
import Offside.Settings.Decode
import Offside.Text.LowerCase

/-!
# Loading settings

Model of `Load` (specification, 9.3).

Settings come from a file whose ending tells its notation. The file is read before its ending is
looked at, and what was read is checked at the end.

* `SettingsError` has one constructor for each way in which `Load` fails, with the path it was
  given, and `SettingsError.message` the text with its contexts in front.
* `ending` is the last part of a path from its last point on. It is compared in lower case, and a
  file without an ending is a TOML file.
* `ofToml` and `ofYaml` make settings of the content of a file, beginning with the standard ones. A
  TOML document that could be taken over may still have an unknown key, the first of which is
  reported; an empty YAML stream leaves the standard settings.
* `load` is `Load`: the standard settings for the empty path, otherwise what the file says, checked.

Out of scope: the words of the decoders in which a faulty document is described; the message ends
with the path.
-/

namespace Offside

/-- Why settings cannot be loaded. -/
inductive SettingsError where
  | unreadable (path : Text) (e : FileError)
  /-- The ending of the file tells no notation. -/
  | unsupported (ending : Text)
  | toml (path : Text)
  | yaml (path : Text)
  | unknownKey (path : Text) (key : Toml.Key)
  | invalid (path : Text) (why : Settings.Invalid)

namespace SettingsError

/-- The message of an error. -/
def message : SettingsError → Text
  | unreadable path e => "read config " ++ path ++ ": " ++ e.message
  | unsupported ending => "unsupported config format " ++ ending.quote
  | toml path => "TOML parse error in " ++ path
  | yaml path => "YAML parse error in " ++ path
  | unknownKey path key => "unknown config key " ++ key.render ++ " in " ++ path
  | invalid path why => "invalid config " ++ path ++ ": " ++ why.message

end SettingsError

namespace Settings

/-- The last part of a path from its last point on, nothing without a point. -/
def ending (path : Text) : Text :=
  let last := (List.splitOn Place.slash path).getLast?.getD []
  match List.splitOn 0x2E last with
  | [] | [_] => []
  | parts => "." ++ parts.getLast?.getD []

/-- The settings that the content of a TOML file makes of the standard ones. -/
def ofToml (path content : Text) : Except SettingsError Settings :=
  match Toml.read content with
  | none => .error (.toml path)
  | some document =>
    match standard.addToml document.root with
    | none => .error (.toml path)
    | some s =>
      match document.keys.find? fun key => !knowsKey document.root key with
      | some key => .error (.unknownKey path key)
      | none => .ok s

/-- The settings that the content of a YAML file makes of the standard ones. -/
def ofYaml (path content : Text) : Except SettingsError Settings :=
  match Yaml.read content with
  | none => .error (.yaml path)
  | some none => .ok standard
  | some (some node) =>
    match standard.addYaml (content.length + 1) node with
    | none => .error (.yaml path)
    | some s => .ok s

/-- The settings that the content of a file makes of the standard ones. -/
def ofFile (path content : Text) : Except SettingsError Settings :=
  let ending := (ending path).lowerCase
  if ending = ".yaml" ∨ ending = ".yml" then ofYaml path content
  else if ending = ".toml" ∨ ending = [] then ofToml path content
  else .error (.unsupported ending)

/-- Loads settings from a file of a directory; without a path, the standard ones (`Load`). -/
def load (d : Directory) (path : Text) : Except SettingsError Settings :=
  if path.isEmpty then .ok standard
  else
    match d.read path with
    | .error e => .error (.unreadable path e)
    | .ok content =>
      match ofFile path content with
      | .error e => .error e
      | .ok s =>
        match s.check with
        | .error why => .error (.invalid path why)
        | .ok s => .ok s

end Settings

end Offside
