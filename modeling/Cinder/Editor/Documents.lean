import Cinder.Table
import Cinder.Text

/-!
The documents that are open in an editor. They are kept apart from what is made of their texts: a
keeper of documents is told of openings, changes and closings, and gives notice when a document has
a new text and when a document was closed.
-/
namespace Cinder.Editor

/-- What an editor tells about a document. -/
inductive Edit where
  | opened (text : Text)
  /-- New texts of the document, the last one being its current text. -/
  | changed (version : Option Int) (texts : List Text)
  | closed

/-- What is heard of a document. -/
inductive Notice where
  | content (text : Text)
  | closed

/-- A document was changed without a version. -/
structure MissingVersion where
  uri : Text

def MissingVersion.message (e : MissingVersion) : Text :=
  "Received document change event for " ++ e.uri ++ " without valid version identifier"

/-- Anything that keeps the documents of an editor. -/
structure Keeper where
  State : Type
  initial : State
  /-- The text of a document, if it is open. -/
  text? : State → Text → Option Text
  /-- Takes an edit of a document. The notices are given in order. -/
  receive : State → Text → Edit → Except MissingVersion (List Notice × State)

/-- Keeps the documents in a table. A change without a version is refused, and changes and closings
of documents that are not open have no effect. -/
def Keeper.table : Keeper where
  State := Table Text Text
  initial := .empty
  text? documents uri := documents.find? uri
  receive documents uri
    | .opened text => .ok ([.content text], documents.insert uri text)
    | .changed version texts =>
      match texts.getLast?, version with
      | none, _ => .ok ([], documents)
      | some _, none => .error ⟨uri⟩
      | some text, some _ =>
        if documents.contains uri then .ok ([.content text], documents.insert uri text)
        else .ok ([], documents)
    | .closed =>
      if documents.contains uri then .ok ([.closed], documents.erase uri) else .ok ([], documents)

end Cinder.Editor
