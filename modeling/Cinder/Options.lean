import Cinder.FileSystem
import Cinder.Json.Parse

/-!
Options: what a configuration file and the command line can choose. The file is a JSON object;
choices of the command line are laid over it and the whole is validated.
-/
namespace Cinder

structure Options where
  indentSize : Nat
  annotate : Bool
  warningsAsErrors : Bool

/-- What is wrong with an option, or with the set of them. -/
inductive OptionFlaw where
  | expectedNumber (received : Text)
  | expectedBoolean (name received : Text)
  | notInteger
  | tooSmall
  | tooLarge
  | unknown (names : List Text)

namespace OptionFlaw

def message : OptionFlaw → Text
  | expectedNumber received => "indentSize: Expected number, received " ++ received
  | expectedBoolean name received => name ++ ": Expected boolean, received " ++ received
  | notInteger => "indentSize: Expected integer, received float"
  | tooSmall => "indentSize: Number must be greater than or equal to 1"
  | tooLarge => "indentSize: Number must be less than or equal to 8"
  | unknown names =>
    "Unrecognized key(s) in object: " ++ Text.join ", " (names.map fun name => "'" ++ name ++ "'")

end OptionFlaw

inductive OptionsError where
  | notFound (path : Path)
  /-- The file is not JSON. Why, the message leaves open. -/
  | notJson (path : Path)
  | notObject
  | invalid (flaws : List OptionFlaw)
  /-- The path is that of a directory. -/
  | isDirectory

namespace OptionsError

def message : OptionsError → Text
  | notFound path => "Config file not found: " ++ path
  | notJson path => "Cannot parse " ++ path ++ ": <reason>"
  | notObject => "Invalid config: expected a JSON object"
  | invalid flaws => "Invalid config: " ++ Text.join "; " (flaws.map OptionFlaw.message)
  | isDirectory => "EISDIR: illegal operation on a directory, read"

end OptionsError

namespace Json

/-- The name of a value's type in messages. -/
def typeName : Json → Text
  | null => "null"
  | bool _ => "boolean"
  | number x => if x.isNaN then "nan" else "number"
  | string _ => "string"
  | array _ => "array"
  | object _ => "object"

/-- The number that a name writes, if it is the plain decimal of a number below `2 ^ 32 - 1`. -/
def index? (name : Text) : Option Nat :=
  if name != [] && name.all CodeUnit.isDigit && (name = [48] || name.head? != some 48)
      && name.decimal < 4294967295 then
    some name.decimal
  else none

/-- Names in the order in which the members of an object are listed: first those that are numbers,
by size, then the others as they come. -/
def listed (names : List Text) : List Text :=
  let numbered := names.filterMap fun name => (index? name).map (·, name)
  (numbered.mergeSort fun a b => a.1 ≤ b.1).map Prod.snd
    ++ names.filter fun name => (index? name).isNone

end Json

namespace Options

def fileName : Text := "cinder.config.json"

def known : List Text := ["indentSize", "annotate", "warningsAsErrors"]

/-- A number is an integer if it equals its floor; infinities are none. -/
def isInteger (x : Float) : Bool := !x.isInf && x.floor == x

def indentFlaws : Option Json → List OptionFlaw
  | none => []
  | some (.number x) =>
    if x.isNaN then [.expectedNumber "nan"]
    else
      (if isInteger x then [] else [.notInteger]) ++ (if x < 1.0 then [.tooSmall] else [])
        ++ (if 8.0 < x then [.tooLarge] else [])
  | some other => [.expectedNumber other.typeName]

def booleanFlaws (name : Text) : Option Json → List OptionFlaw
  | none => []
  | some (.bool _) => []
  | some other => [.expectedBoolean name other.typeName]

def indentValue : Option Json → Nat
  | some (.number x) => x.toUInt64.toNat
  | _ => 4

def booleanValue : Option Json → Bool
  | some (.bool b) => b
  | _ => false

/-- Reads options from the members of an object. Flaws are listed option by option; names that are
no options come last. -/
def validate (members : List (Text × Json)) : Except OptionsError Options :=
  let unknown := Json.listed ((members.map Prod.fst).filter (!known.contains ·))
  let indent := members.lookup (Text.ofString "indentSize")
  let annotate := members.lookup (Text.ofString "annotate")
  let warnings := members.lookup (Text.ofString "warningsAsErrors")
  let flaws := indentFlaws indent ++ booleanFlaws "annotate" annotate
    ++ booleanFlaws "warningsAsErrors" warnings ++ (if unknown = [] then [] else [.unknown unknown])
  if flaws.isEmpty then .ok ⟨indentValue indent, booleanValue annotate, booleanValue warnings⟩
  else .error (.invalid flaws)

/-- The JSON value in a file. -/
def readFile (path : Path) : Entry → Except OptionsError Json
  | .directory => .error .isDirectory
  | .file text =>
    match Json.parse text with
    | some value => .ok value
    | none => .error (.notJson path)

/-- The configuration file: one that is named must exist, and otherwise the file of the usual name is
read if it does. -/
def fromFile (fs : FileSystem) (directory : Path) (named : Option Text) : Except OptionsError Json :=
  match named with
  | some name =>
    let path := Path.resolve directory name
    match fs.find? path with
    | none => .error (.notFound path)
    | some entry => readFile path entry
  | none =>
    let path := Path.resolve directory fileName
    match fs.find? path with
    | none => .ok (.object [])
    | some entry => readFile path entry

/-- The options of the configuration file with `overrides` laid over them. -/
def load (fs : FileSystem) (directory : Path) (named : Option Text)
    (overrides : List (Text × Json)) : Except OptionsError Options := do
  match ← fromFile fs directory named with
  | .object members => validate (Json.members (members ++ overrides))
  | _ => .error .notObject

end Options

end Cinder
