import Cinder.Json
import Cinder.Number.Read

/-!
Command lines: the arguments of a command split into files and options.
-/
namespace Cinder.Command

/-- Options that stand alone. -/
inductive Flag where
  | check
  | stdout
  | annotate
  | warningsAsErrors
  deriving DecidableEq

/-- Options that take the next argument, whatever it is. -/
inductive Setting where
  | indent
  | config
  deriving DecidableEq

inductive Choice where
  | flag (f : Flag)
  | setting (s : Setting)

/-- The options and how they are written. -/
def choices : List (Text × Choice) :=
  [("--check", .flag .check), ("--stdout", .flag .stdout), ("--annotate", .flag .annotate),
    ("--warnings-as-errors", .flag .warningsAsErrors), ("--indent", .setting .indent),
    ("--config", .setting .config)]

inductive UsageError where
  | unknownOption (arg : Text)
  | missingValue (arg : Text)
  | annotateWithoutStdout

def UsageError.message : UsageError → Text
  | unknownOption arg => "Unknown option: " ++ arg
  | missingValue arg => arg ++ " requires a value"
  | annotateWithoutStdout => "--annotate requires --stdout"

structure Line where
  files : List Text
  indentSize : Option Float
  configPath : Option Text
  check : Bool
  stdout : Bool
  annotate : Bool
  warningsAsErrors : Bool

namespace Line

def empty : Line := ⟨[], none, none, false, false, false, false⟩

def addFile (line : Line) (file : Text) : Line := { line with files := line.files ++ [file] }

def raise (line : Line) : Flag → Line
  | .check => { line with check := true }
  | .stdout => { line with stdout := true }
  | .annotate => { line with annotate := true }
  | .warningsAsErrors => { line with warningsAsErrors := true }

def set (line : Line) (value : Text) : Setting → Line
  | .indent => { line with indentSize := some (Number.read value) }
  | .config => { line with configPath := some value }

/-- Reads arguments on top of what was read before. An argument that begins with a dash is an option
and has to be allowed. -/
def extend (allowed : List Text) (line : Line) : List Text → Except UsageError Line
  | [] => .ok line
  | arg :: rest =>
    if arg.head? != some 45 then extend allowed (line.addFile arg) rest
    else if !allowed.contains arg then .error (.unknownOption arg)
    else match choices.lookup arg with
      | none => extend allowed line rest
      | some (.flag f) => extend allowed (line.raise f) rest
      | some (.setting s) =>
        match rest with
        | [] => .error (.missingValue arg)
        | value :: rest => extend allowed (line.set value s) rest

def parse (allowed : List Text) (args : List Text) : Except UsageError Line :=
  extend allowed empty args

/-- What the command line says about the options of the configuration. -/
def overrides (line : Line) : List (Text × Json) :=
  (line.indentSize.map fun x => (Text.ofString "indentSize", Json.number x)).toList
    ++ (if line.annotate then [(Text.ofString "annotate", .bool true)] else [])
    ++ (if line.warningsAsErrors then [(Text.ofString "warningsAsErrors", .bool true)] else [])

end Line

end Cinder.Command
