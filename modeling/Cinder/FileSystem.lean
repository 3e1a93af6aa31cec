import Cinder.Table
import Cinder.Text

/-!
Paths and a file system. Paths are absolute, without empty, `.` and `..` steps, and begin with a
slash.
-/
namespace Cinder

abbrev Path := Text

namespace Path

/-- The steps of a path between slashes. -/
def steps : Text → List Text
  | [] => [[]]
  | u :: rest =>
    if u = CodeUnit.slash then [] :: steps rest
    else match steps rest with
      | [] => [[u]]
      | step :: more => (u :: step) :: more

/-- Takes steps one by one: `..` goes up, if there is anywhere to go, and `.` stays. -/
def walk : List Text → List Text → List Text
  | visited, [] => visited
  | visited, step :: rest =>
    if step = [] || step = Text.ofString "." then walk visited rest
    else if step = Text.ofString ".." then walk visited.dropLast rest
    else walk (visited ++ [step]) rest

/-- The path with these steps. -/
def ofSteps (steps : List Text) : Path := "/" ++ Text.join "/" steps

/-- The path that `name` means in the directory `base`. -/
def resolve (base : Path) (name : Text) : Path :=
  if name.head? = some CodeUnit.slash then ofSteps (walk [] (steps name))
  else ofSteps (walk [] (steps base ++ steps name))

/-- The directories above a path, from the root on. -/
def parents (p : Path) : List Path :=
  let all := walk [] (steps p)
  (List.range all.length).map fun n => ofSteps (all.take n)

end Path

inductive Entry where
  | file (text : Text)
  | directory

structure FileSystem where
  entries : Table Path Entry
  /-- The writes so far, in order. -/
  journal : List (Path × Text)

namespace FileSystem

def empty : FileSystem := ⟨.empty, []⟩

def find? (fs : FileSystem) (p : Path) : Option Entry := fs.entries.find? p

def write (fs : FileSystem) (p : Path) (text : Text) : FileSystem :=
  ⟨fs.entries.insert p (.file text), fs.journal ++ [(p, text)]⟩

/-- Adds an entry and the directories above it, as what was there before anything was written. -/
def add (fs : FileSystem) (p : Path) (entry : Entry) : FileSystem :=
  let above := p.parents.foldl (fun t parent => Table.insert t parent .directory) fs.entries
  { fs with entries := above.insert p entry }

end FileSystem

end Cinder
