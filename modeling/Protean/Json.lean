import Protean.Text

/-- A decoded JSON value. An object is a map: only the first field of a name
counts, and the order of its fields says nothing. -/
inductive Json
  | null
  | bool (b : Bool)
  | num (q : Rat)
  | str (t : Text)
  | arr (items : List Json)
  | obj (fields : List (String × Json))
  deriving Repr

namespace Json

def field (j : Json) (name : String) : Option Json :=
  match j with
  | obj fields => fields.lookup name
  | _ => none

/-- A field of an object in a field. -/
def path (j : Json) (outer inner : String) : Option Json := (j.field outer).bind (·.field inner)

def int (n : Int) : Json := num n

def text (s : String) : Json := str s.toList

end Json
