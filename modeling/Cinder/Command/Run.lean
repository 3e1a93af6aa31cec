import Cinder.Command.Line
import Cinder.Editor.Document
import Cinder.Options
import Cinder.Program.Format

/-!
The commands `check`, `fmt` and `names` over a file system. What a command prints and writes is part
of the state, so an interrupted run keeps what it did before.
-/
namespace Cinder.Command

/-- Why a run ends without an exit code. -/
inductive Halt where
  /-- A directory was read as a file. -/
  | isDirectory
  | fault (f : Fault)
  | indent (e : BadIndent)

def Halt.message : Halt → Text
  | isDirectory => OptionsError.isDirectory.message
  | fault f => f.message
  | indent e => e.message

/-- The directory that a command runs in, the files with what was written to them, and what was
printed. -/
structure Shell where
  directory : Path
  files : FileSystem
  stdout : Text
  stderr : Text

abbrev Run := EStateM Halt Shell

def print (t : Text) : Run Unit := modify fun s => { s with stdout := s.stdout ++ t }

def printLine (t : Text) : Run Unit := print (t ++ [CodeUnit.newline])

def complain (t : Text) : Run Unit :=
  modify fun s => { s with stderr := s.stderr ++ t ++ [CodeUnit.newline] }

def write (path : Path) (text : Text) : Run Unit :=
  modify fun s => { s with files := s.files.write path text }

def resolve (file : Text) : Run Path := do return Path.resolve (← get).directory file

/-- The text of a file, or a complaint that there is none. -/
def readFile (path : Path) : Run (Option Text) := do
  match (← get).files.find? path with
  | none =>
    complain ("Error: File not found: " ++ path)
    return none
  | some .directory => throw .isDirectory
  | some (.file text) => return some text

/-- A number of things, in the plural unless it is one. -/
def count (n : Nat) (noun : Text) : Text :=
  let ending : Text := if n = 1 then [] else "s"
  Text.ofNat n ++ " " ++ noun ++ ending

/-- How many errors and warnings there are. -/
def summary (errors warnings : Nat) : Text :=
  let parts := (if 0 < errors then [count errors "error"] else [])
    ++ (if 0 < warnings then [count warnings "warning"] else [])
  if parts.isEmpty then "no errors" else Text.join ", " parts

/-- Each diagnostic on an indented line. -/
def listing (ds : List Diagnostic) : List Text := ds.map fun d => "  " ++ d.render

def printLines : List Text → Run Unit
  | [] => return ()
  | t :: rest => do
    printLine t
    printLines rest

def complainLines : List Text → Run Unit
  | [] => return ()
  | t :: rest => do
    complain t
    complainLines rest

/-- Runs an action for each file. The result tells whether it succeeded for all of them. -/
def forFiles (action : Text → Run Bool) : List Text → Run Bool
  | [] => return true
  | file :: rest => do
    let first ← action file
    let others ← forFiles action rest
    return first && others

def exitCode (success : Bool) : Nat := if success then 0 else 1

/-- Reports all diagnostics of a file. -/
def checkFile (warningsAsErrors : Bool) (file : Text) : Run Bool := do
  match ← readFile (← resolve file) with
  | none => return false
  | some source =>
    match source.collect with
    | .error f => throw (.fault f)
    | .ok diagnostics =>
      let errors := Diagnostic.errorCount diagnostics
      let warnings := diagnostics.length - errors
      let failed := 0 < errors || warningsAsErrors && 0 < warnings
      let sign : Text := if failed then "✗" else "✓"
      printLine (sign ++ " " ++ file ++ " — " ++ summary errors warnings)
      printLines (listing diagnostics)
      return !failed

/-- What `fmt` does with the texts it makes. -/
structure FormatOptions where
  indentSize : Nat
  /-- Counts only for printing, since annotated text is no program. -/
  annotate : Bool
  check : Bool
  stdout : Bool

/-- Formats a file in place, prints it, or tells whether it would change. -/
def formatFile (options : FormatOptions) (file : Text) : Run Bool := do
  let path ← resolve file
  match ← readFile path with
  | none => return false
  | some source =>
    let labelling := if options.stdout && options.annotate then Labelling.resolved else .plain
    match source.format (.blanks options.indentSize) labelling with
    | .error (.source errors) =>
      complain (file ++ ": " ++ (FormatError.source errors).message)
      return false
    | .error (.fault f) => throw (.fault f)
    | .error (.indent e) => throw (.indent e)
    | .ok formatted =>
      if options.check then
        if source = formatted then
          printLine ("Already formatted: " ++ file)
          return true
        else
          printLine ("Would reformat: " ++ file)
          return false
      else if options.stdout then
        print formatted
        return true
      else if source = formatted then
        printLine ("Unchanged: " ++ file)
        return true
      else
        write path formatted
        printLine ("Formatted: " ++ file)
        return true

/-- Prints a program with the type of each bound identifier. -/
def nameFile (indentSize : Nat) (file : Text) : Run Bool := do
  match ← readFile (← resolve file) with
  | none => return false
  | some source =>
    let parsed := source.parse
    match parsed.program with
    | none =>
      complain (file ++ ":")
      complainLines (listing parsed.diagnostics)
      return false
    | some p =>
      match p.analyze with
      | .error f => throw (.fault f)
      | .ok analysis =>
        match p.render (.blanks indentSize) analysis.bindings.annotate with
        | .error e => throw (.indent e)
        | .ok text =>
          print text
          return true

inductive Verb where
  | check
  | fmt
  | names
  deriving DecidableEq

namespace Verb

def verbs : List (Text × Verb) := [("check", check), ("fmt", fmt), ("names", names)]

/-- The options that a command takes. -/
def options : Verb → List Text
  | check => ["--warnings-as-errors", "--config"]
  | fmt => ["--check", "--stdout", "--indent", "--annotate", "--config"]
  | names => ["--indent", "--config"]

end Verb

def usage : List Text :=
  ["Cinder v0.1.0",
    "",
    "Usage:",
    "  cinder check <file.cdr> [...]    Resolve names and type-check",
    "  cinder fmt <file.cdr> [...]      Reformat files in place",
    "  cinder names <file.cdr> [...]    Print programs with name(type) annotations",
    "",
    "Options:",
    "  --warnings-as-errors   check: fail on warnings too",
    "  --check                fmt: report files that would change",
    "  --stdout               fmt: print instead of rewriting",
    "  --annotate             fmt: annotate identifiers (with --stdout)",
    "  --indent <n>           fmt, names: spaces per level (1-8)",
    "  --config <path>        read options from a JSON file (default: ./cinder.config.json)"]

def isHelp (arg : Text) : Bool := arg = Text.ofString "--help" || arg = Text.ofString "-h"

/-- Runs a command on its files. -/
def perform (verb : Verb) (line : Line) (options : Options) : Run Bool :=
  match verb with
  | .check => forFiles (checkFile options.warningsAsErrors) line.files
  | .fmt =>
    let format : FormatOptions := ⟨options.indentSize, options.annotate, line.check, line.stdout⟩
    forFiles (formatFile format) line.files
  | .names => forFiles (nameFile options.indentSize) line.files

/-- Runs a command with its arguments. Mistakes in the arguments come before those of the
configuration. -/
def runVerb (name : Text) (verb : Verb) (args : List Text) : Run Nat := do
  match Line.parse verb.options args with
  | .error e =>
    complain e.message
    return 1
  | .ok line =>
    if line.files.isEmpty then
      complain ("Error: " ++ name ++ " requires at least one file argument")
      return 1
    else if line.annotate && !line.stdout then
      complain UsageError.annotateWithoutStdout.message
      return 1
    else
      let shell ← get
      match Options.load shell.files shell.directory line.configPath line.overrides with
      | .error .isDirectory => throw .isDirectory
      | .error e =>
        complain ("Error: " ++ e.message)
        return 1
      | .ok options => return exitCode (← perform verb line options)

/-- Runs the program with its arguments. -/
def run : List Text → Run Nat
  | [] => do
    printLines usage
    return 0
  | name :: args =>
    if isHelp name then do
      printLines usage
      return 0
    else match Verb.verbs.lookup name with
      | none => do
        complain ("Unknown command: " ++ name)
        printLines usage
        return 1
      | some verb =>
        if args.any isHelp then do
          printLines usage
          return 0
        else runVerb name verb args

end Cinder.Command
