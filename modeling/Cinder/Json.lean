import Cinder.Table
import Cinder.Text

/-!
JSON values. The members of an object have distinct names and stand in the order in which the names
first occurred.
-/
namespace Cinder

inductive Json where
  | null
  | bool (b : Bool)
  | number (x : Float)
  | string (t : Text)
  | array (items : List Json)
  | object (members : List (Text × Json))

namespace Json

/-- The members that a list of name and value pairs gives when they are added one by one. -/
def members (pairs : List (Text × Json)) : List (Text × Json) :=
  pairs.foldl (fun soFar pair => Table.put pair.1 pair.2 soFar) []

end Json

end Cinder
