import Storyboard.Json.Basic

/-!
# Records

A record is written as an object, and may be read from one or from an array of
its fields in their declared order.  Fields that are not declared are passed
over; an array must not be longer than the declaration.
-/

namespace Storyboard.Json

/-- The fields of a record by name. -/
abbrev Record := List (String × Json)

/-- The fields that a value holds for a record with the given field names. -/
def record? (names : List String) : Json → Option Record
  | .obj fields => some fields
  | .arr items => if items.length ≤ names.length then some (names.zip items) else none
  | _ => none

namespace Record

variable {β : Type}

/-- A field that has to be there. -/
def required (r : Record) (name : String) (read : Json → Option β) : Option β :=
  (r.lookup name).bind read

/-- A field that may be absent or `null`. -/
def optional (r : Record) (name : String) (read : Json → Option β) : Option (Option β) :=
  match r.lookup name with
  | none => some none
  | some .null => some none
  | some j => (read j).map some

/-- A field that may be absent, but not `null`. -/
def defaulted (r : Record) (name : String) (default : β) (read : Json → Option β) :
    Option β :=
  match r.lookup name with
  | none => some default
  | some j => read j

end Record

end Storyboard.Json
