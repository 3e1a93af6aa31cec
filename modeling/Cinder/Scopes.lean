import Cinder.Symbol
import Cinder.Table

/-!
Scopes: a stack of frames, the innermost first. Names are added to the innermost frame and looked up
from the innermost frame outwards.
-/
namespace Cinder

abbrev Frame := Table Text Symbol

structure Scopes where
  frames : List Frame

namespace Scopes

/-- The file scope alone. -/
def initial : Scopes := ⟨[.empty]⟩

def depth (s : Scopes) : Nat := s.frames.length

/-- Adds an empty innermost frame. -/
def enter (s : Scopes) : Scopes := ⟨.empty :: s.frames⟩

/-- Drops the innermost frame. -/
def leave (s : Scopes) : Except Fault Scopes :=
  match s.frames with
  | [] => .error .noScope
  | _ :: frames => .ok ⟨frames⟩

/-- Gives a name of the innermost frame a symbol. -/
def declare (s : Scopes) (name : Text) (symbol? : Option Symbol) : Except Fault Scopes :=
  match symbol? with
  | none => .error .incompleteDeclaration
  | some symbol =>
    if name = [] then .error .incompleteDeclaration
    else match s.frames with
      | [] => .error .noScope
      | frame :: frames =>
        if frame.contains name then .error (.duplicate name)
        else .ok ⟨frame.insert name symbol :: frames⟩

/-- Looks a name up in the innermost frame only. -/
def findLocal (s : Scopes) (name : Text) : Except Fault (Option Symbol) :=
  match s.frames with
  | [] => .error .noScope
  | frame :: _ => .ok (frame.find? name)

/-- Looks a name up from the innermost frame outwards. -/
def find (s : Scopes) (name : Text) : Except Fault (Option Symbol) :=
  match s.frames with
  | [] => .error .noScope
  | frames => .ok (frames.findSome? (·.find? name))

/-- The names of the innermost frame. -/
def localNames (s : Scopes) : Except Fault (List Text) :=
  match s.frames with
  | [] => .error .noScope
  | frame :: _ => .ok frame.keys

/-- Gives a name of the frame around the innermost one a new symbol. -/
def amendOuter (s : Scopes) (name : Text) (symbol : Symbol) : Scopes :=
  match s.frames with
  | inner :: outer :: frames => ⟨inner :: outer.insert name symbol :: frames⟩
  | _ => s

/-- One line per frame, the innermost first. -/
def render (s : Scopes) : Text :=
  Text.join [CodeUnit.newline] (s.frames.map fun frame => Symbol.renderFrame frame.entries)

end Scopes

end Cinder
