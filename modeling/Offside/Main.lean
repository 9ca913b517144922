import Offside.Cli.Run

/-!
# The program

The only module that talks to the system. `runOnSystem` gathers the files that a run looks at, runs
it (`Cli/Run`), writes what it wrote, and exits with its code. No theorem is about what stands here.
-/

namespace Offside.Cli

/-- A path as the system knows it. -/
def systemPath (path : Text) : String :=
  (String.fromUTF8? (ByteArray.mk path.toArray)).getD ""

/-- Takes over what the system has under a path. -/
def gather (d : Directory) (path : Text) : IO Directory := do
  try
    let bytes ← IO.FS.readBinFile (systemPath path)
    return d.insert (.ofPath path) bytes.toList
  catch
    | .noFileOrDirectory .. => return d
    | _ => return d.addFolder (.ofPath path)

/-- The beginnings of a path that end before a slash, and the path itself. -/
def stages (path : Text) : List Text :=
  let cuts := (List.range path.length).filter fun i => 0 < i && path[i]? == some Place.slash
  cuts.map path.take ++ [path]

/-- All of standard input. -/
partial def readToEnd (input : IO.FS.Stream) (read : List UInt8) : IO (List UInt8) := do
  let bytes ← input.read 65536
  if bytes.isEmpty then return read else readToEnd input (read ++ bytes.toList)

/-- Writes a file that a run has changed. -/
def restore (before after : Directory) (path : Text) : IO Unit := do
  match after.read path with
  | .ok content =>
    if (before.read path).toOption ≠ some content then
      IO.FS.writeBinFile (systemPath path) (ByteArray.mk content.toArray)
  | .error _ => return ()

/-- The file in the home folder that keeps the history. -/
def historyPath : IO Text := do
  match ← IO.getEnv "HOME" with
  | some home => return Text.ofString home ++ "/" ++ Environment.historyName
  | none => return Environment.historyName

/-- Writes a text to a stream. -/
def writeText (stream : IO.FS.Stream) (t : Text) : IO Unit := do
  stream.write (ByteArray.mk t.toArray)
  stream.flush

/-- Runs the program on the files of the system. -/
def runOnSystem (args : List Text) : IO UInt32 := do
  let history ← historyPath
  let isFile (path : Text) : Bool := !path.isEmpty && !(Place.ofPath path).isDevice
  let paths := history :: (paths args).filter isFile
  let before ← (paths.flatMap stages).foldlM gather Directory.empty
  let stdin ← if readsStdin args then readToEnd (← IO.getStdin) [] else pure []
  let outcome := run ⟨before, stdin, history⟩ args
  paths.forM (restore before outcome.directory)
  writeText (← IO.getStdout) outcome.stdout
  writeText (← IO.getStderr) outcome.stderr
  return UInt32.ofNat outcome.exitCode

end Offside.Cli

def main (args : List String) : IO UInt32 :=
  Offside.Cli.runOnSystem (args.map Offside.Text.ofString)
