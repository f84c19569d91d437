import Storyboard.Number.Double

/-!
# JSON values

Scripts, models and timelines travel as JSON.  A number written without a
fraction and an exponent is kept as an integer as long as it fits into 64 bits,
so that a value that nobody understands can be handed back as it came.
-/

namespace Storyboard

/-- A JSON value; the fields of an object are kept in the order of their names. -/
inductive Json where
  | null
  | bool (b : Bool)
  | int (n : Int)
  | float (x : Float)
  | str (s : String)
  | arr (items : List Json)
  | obj (fields : List (String × Json))
  deriving Inhabited

namespace Json

/-- The value of a field; nothing for a value that is no object. -/
def field? (j : Json) (name : String) : Option Json :=
  match j with
  | .obj fields => fields.lookup name
  | _ => none

/-- The text of a string. -/
def text? : Json → Option String
  | .str s => some s
  | _ => none

/-- A truth value. -/
def bool? : Json → Option Bool
  | .bool b => some b
  | _ => none

/-- A double that is a number of JSON. -/
def finite? (x : Float) : Option Float := if Scalar.isFinite x then some x else none

/-- A number as a double; one beyond the doubles is none. -/
def number? : Json → Option Float
  | .int n => finite? (Float.ofInt n)
  | .float x => finite? x
  | _ => none

/-- The values of an array. -/
def items? : Json → Option (List Json)
  | .arr items => some items
  | _ => none

/-- The values of an array, each of them read; nothing if one of them cannot be. -/
def list? {β : Type} (read : Json → Option β) (j : Json) : Option (List β) :=
  j.items?.bind fun items => items.mapM read

/-- The texts of an array of strings. -/
def texts? (j : Json) : Option (List String) := j.list? text?

/--
The name of a word without parameters: a string, or an object whose one field
has that name and is `null`.
-/
def word? : Json → Option String
  | .str s => some s
  | .obj [(name, .null)] => some name
  | _ => none

/-- A double, or `null` for one that JSON has no number for. -/
def ofFloat (x : Float) : Json := if Scalar.isFinite x then .float x else .null

/-- An array of strings. -/
def ofTexts (texts : List String) : Json := .arr (texts.map .str)

/-- An object of the fields that have a value. -/
def ofFields (fields : List (String × Option Json)) : Json :=
  .obj (fields.filterMap fun f => f.2.map fun v => (f.1, v))

end Json

end Storyboard
