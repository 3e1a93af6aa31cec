import Cinder.Command.Run
import Cinder.Text.Utf8

/-!
The program `cinder`. It looks at the files that its arguments name, runs the command on what it saw,
prints, and writes what the command wrote.
-/
open Cinder

/-- The number by which the system says that something is a directory. -/
def directoryError : UInt32 := 21

/-- What stands at a path, if anything. -/
def lookAt (path : Path) : IO (Option Entry) := do
  try
    let bytes ← IO.FS.readBinFile path.toString
    return some (.file (Text.decode bytes.toList))
  catch
    | .inappropriateType _ code _ =>
      return if code = directoryError then some .directory else none
    | _ => return none

/-- The files that a command with these arguments can read. -/
def look (directory : Path) (args : List Text) : IO FileSystem := do
  let paths := (Options.fileName :: args).map (Path.resolve directory)
  paths.foldlM (fun fs path => do
    match ← lookAt path with
    | none => return fs
    | some entry => return { fs with entries := fs.entries.insert path entry }) FileSystem.empty

def writeBack (files : FileSystem) : IO Unit :=
  files.journal.forM fun (path, text) => IO.FS.writeFile path.toString text.toString

def main (args : List String) : IO UInt32 := do
  let directory := Text.ofString (← IO.currentDir).toString
  let args := args.map Text.ofString
  let files ← look directory args
  let (code, shell, halt) := match (Command.run args).run ⟨directory, files, [], []⟩ with
    | .ok code shell => (code, shell, [])
    | .error halt shell => (1, shell, halt.message ++ [CodeUnit.newline])
  writeBack shell.files
  IO.print shell.stdout.toString
  IO.eprint (shell.stderr ++ halt).toString
  return code.toUInt32
