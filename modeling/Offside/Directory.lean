import Offside.Lookup
import Offside.Place

/-!
# A directory of files

Model of the file system as the commands, the settings and the history see it: reading a file,
writing a file, and the errors of both.

A directory holds files at places. The folders on the way to a file exist with it, and stay when the
file is removed. Reading and writing fail for the usual reasons; a failure names what was tried, the
path and the reason.

* `FileError` is a failure and `FileError.message` its text, in the words of the system.
* `Directory.resolve` follows a path through its folders, part by part, and may find nothing at its
  end; `Directory.resolveFile` is the same for a file to be written.
* `Directory.read` and `Directory.write` read and write a file. What is written to a device is not
  kept.

Out of scope: permissions, links, and files that change while a run looks at them.
-/

namespace Offside

/-- Files at their places, and the folders that exist. -/
structure Directory where
  files : List (Place × Text)
  folders : List Place

/-- Why a file cannot be reached. -/
inductive FileError.Reason where
  | absent
  | isFolder
  | notFolder
  | nameTooLong
  | invalidName
  deriving DecidableEq, Repr

/-- A failed attempt to read or write. -/
structure FileError where
  /-- What was tried. -/
  action : Text
  path : Text
  reason : FileError.Reason
  deriving DecidableEq, Repr

namespace FileError

/-- The wording of a reason. -/
def Reason.message : Reason → Text
  | absent => "no such file or directory"
  | isFolder => "is a directory"
  | notFolder => "not a directory"
  | nameTooLong => "file name too long"
  | invalidName => "invalid argument"

/-- The message of a failure. -/
def message (e : FileError) : Text :=
  e.action ++ " " ++ e.path ++ ": " ++ e.reason.message

/-- A path that cannot be opened. -/
def opening (path : Text) (reason : Reason) : FileError :=
  ⟨"open", path, reason⟩

end FileError

namespace Directory

/-- The length that a name may have. -/
def maxName : Nat := 255

/-- The length that a path may have. -/
def maxPath : Nat := 4095

/-- The directory with a file added or replaced, and the folders on the way to it. -/
def insert (d : Directory) (place : Place) (content : Text) : Directory where
  files := (place, content) :: d.files.filter fun (p, _) => p != place
  folders := d.folders ++ place.folders.filter fun folder => !d.folders.contains folder

/-- The directory without files of its own. -/
def empty : Directory := insert ⟨[], []⟩ .sink []

/-- The directory with the given files. -/
def ofFiles (files : List (Text × Text)) : Directory :=
  files.foldl (fun d (path, content) => d.insert (.ofPath path) content) empty

/-- The directory without a file. -/
def remove (d : Directory) (path : Text) : Directory :=
  { d with files := d.files.filter fun (p, _) => p != .ofPath path }

/-- The directory with a folder added. -/
def addFolder (d : Directory) (place : Place) : Directory :=
  { d with folders := if d.folders.contains place then d.folders else place :: d.folders }

/-- The content of a file. -/
def content? (d : Directory) (place : Place) : Option Text :=
  d.files.lookup place

/-- Whether a place is a folder. -/
def hasFolder (d : Directory) (place : Place) : Bool :=
  place.names.isEmpty || d.folders.contains place

/-- Goes from a folder where one part of a path leads. Nothing need be there. -/
def step (here : Place) (part : Text) : Except FileError.Reason Place :=
  if maxName < part.length then .error .nameTooLong else .ok (here.enter part)

/-- Follows parts of a path from a folder through folders. -/
def walk (d : Directory) (here : Place) : List Text → Except FileError.Reason Place
  | [] => .ok here
  | part :: rest =>
    match step here part with
    | .error reason => .error reason
    | .ok there =>
      if d.hasFolder there then walk d there rest
      else if (d.content? there).isSome then .error .notFolder
      else .error .absent

/-- Refuses a path that no file can have. -/
def checkPath (path : Text) : Except FileError.Reason Unit :=
  if path.contains 0 then .error .invalidName
  else if path.isEmpty then .error .absent
  else if maxPath < path.length then .error .nameTooLong
  else .ok ()

/-- The place that a path leads to. Nothing need be there, but its folder has to exist. -/
def resolve (d : Directory) (path : Text) : Except FileError.Reason Place := do
  checkPath path
  let parts := List.splitOn Place.slash path
  step (← d.walk (.start path) parts.dropLast) (parts.getLastD [])

/-- The place where a file can be written. A path that ends in a slash can only be meant for a
folder. -/
def resolveFile (d : Directory) (path : Text) : Except FileError.Reason Place := do
  if path.getLast? = some Place.slash then
    checkPath path
    let _ ← d.walk (.start path)
      (List.splitOn Place.slash (path.dropEnd (· == Place.slash))).dropLast
    .error .isFolder
  else
    let place ← d.resolve path
    if d.hasFolder place then .error .isFolder else .ok place

/-- Reads a file. -/
def read (d : Directory) (path : Text) : Except FileError Text :=
  match d.resolve path with
  | .error reason => .error (.opening path reason)
  | .ok place =>
    if d.hasFolder place then .error ⟨"read", path, .isFolder⟩
    else match d.content? place with
      | some content => .ok content
      | none => .error (.opening path .absent)

/-- Writes a file. What is written to a device is not kept. -/
def write (d : Directory) (path : Text) (content : Text) : Except FileError Directory :=
  match d.resolveFile path with
  | .error reason => .error (.opening path reason)
  | .ok place => if place.isDevice then .ok d else .ok (d.insert place content)

end Directory

end Offside
