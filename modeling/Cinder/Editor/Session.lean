import Cinder.Editor.Document
import Cinder.Editor.Documents

/-!
Editor sessions: each open document is analysed anew whenever there is notice of a new text.
-/
namespace Cinder.Editor

/-- What a server tells an editor about itself. -/
structure Server where
  name : Text
  version : Text
  /-- Documents are sent whole on every change. -/
  wholeText : Bool
  hovers : Bool

def server : Server := ⟨"cinder-lsp", "0.1.0", true, true⟩

inductive Event where
  /-- The editor asks for the server. -/
  | greet
  /-- The editor is ready. -/
  | ready
  | opened (uri : Text) (text : Text)
  | changed (uri : Text) (version : Option Int) (texts : List Text)
  | closed (uri : Text)
  | hover (uri : Text) (line character : Int)

inductive Answer where
  | nothing
  | server (s : Server)
  | markdown (text : Text)

/-- The text of a hover is shown as code. -/
def Answer.ofHover : Option Text → Answer
  | none => nothing
  | some text => markdown ("\x60" ++ text ++ "\x60")

/-- The answer to an event, with the lines logged and the marks published for documents. -/
structure Reply where
  answer : Answer
  logs : List Text
  published : List (Text × List Mark)

namespace Reply

def silent : Reply := ⟨.nothing, [], []⟩

/-- What two notices one after the other lead to. -/
def append (first later : Reply) : Reply :=
  ⟨.nothing, first.logs ++ later.logs, first.published ++ later.published⟩

end Reply

inductive SessionError where
  | unversioned (e : MissingVersion)
  | fault (f : Fault)

def SessionError.message : SessionError → Text
  | unversioned e => e.message
  | fault f => f.message

/-- The documents, and the latest analysis of each that there was notice of. -/
structure SessionWith (keeper : Keeper) where
  documents : keeper.State
  analyses : Table Text Document

namespace SessionWith

variable {keeper : Keeper}

def initial : SessionWith keeper := ⟨keeper.initial, .empty⟩

/-- Analyses the text of a document and publishes its marks. -/
def validate (s : SessionWith keeper) (uri text : Text) :
    Except SessionError (Reply × SessionWith keeper) :=
  match Document.ofText text with
  | .error f => .error (.fault f)
  | .ok d =>
    let logs := match d.content with
      | none => [uri ++ ": syntax error, skipping analysis"]
      | some _ => []
    .ok (⟨.nothing, logs, [(uri, d.marks)]⟩, { s with analyses := s.analyses.insert uri d })

/-- Follows a notice about a document. The marks of a closed document are cleared. -/
def heed (s : SessionWith keeper) (uri : Text) :
    Notice → Except SessionError (Reply × SessionWith keeper)
  | .content text => s.validate uri text
  | .closed =>
    .ok (⟨.nothing, [], [(uri, [])]⟩, { s with analyses := s.analyses.erase uri })

def heedAll (s : SessionWith keeper) (uri : Text) :
    List Notice → Except SessionError (Reply × SessionWith keeper)
  | [] => .ok (Reply.silent, s)
  | notice :: later => do
    let (first, s) ← s.heed uri notice
    let (others, s) ← s.heedAll uri later
    return (first.append others, s)

/-- Hands an edit to the keeper of the documents. -/
def edit (s : SessionWith keeper) (uri : Text) (e : Edit) :
    Except SessionError (Reply × SessionWith keeper) :=
  match keeper.receive s.documents uri e with
  | .error e => .error (.unversioned e)
  | .ok (notices, documents) => heedAll { s with documents } uri notices

def hover (s : SessionWith keeper) (uri : Text) (line character : Int) : Answer :=
  .ofHover ((s.analyses.find? uri).bind (·.hoverAt line character))

/-- Handles an event. -/
def step (s : SessionWith keeper) : Event → Except SessionError (Reply × SessionWith keeper)
  | .greet => .ok ({ Reply.silent with answer := .server server }, s)
  | .ready => .ok ({ Reply.silent with logs := ["Cinder language server ready"] }, s)
  | .opened uri text => s.edit uri (.opened text)
  | .changed uri version texts => s.edit uri (.changed version texts)
  | .closed uri => s.edit uri .closed
  | .hover uri line character =>
    .ok ({ Reply.silent with answer := s.hover uri line character }, s)

end SessionWith

abbrev Session := SessionWith .table

def Session.initial : Session := SessionWith.initial

end Cinder.Editor
