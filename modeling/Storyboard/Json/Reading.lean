import Storyboard.Json.Record
import Storyboard.Number.Written
import Storyboard.Text.Quoted

/-!
# Readings with a complaint

Reading the fields of an object one by one, and saying what is wrong when they do
not fit.  Of several complaints one is kept: a field that does not fit comes
before one that is missing, of two that do not fit the one earlier by name, and
of two that are missing the one asked for first.
-/

namespace Storyboard.Json

/-- What is wrong with the fields of an object. -/
inductive Complaint where
  | misfit (field detail : String)
  | missing (field : String)
  deriving DecidableEq, Inhabited

namespace Complaint

/-- The complaint that is kept of two, the first being about an earlier demand. -/
def or : Complaint → Complaint → Complaint
  | misfit f d, misfit g e => if g < f then misfit g e else misfit f d
  | misfit f d, missing _ => misfit f d
  | missing _, misfit g e => misfit g e
  | missing f, missing _ => missing f

def message : Complaint → String
  | misfit _ detail => detail
  | missing field => "missing field `" ++ field ++ "`"

end Complaint

/-- A value that has been read, or the complaint about it. -/
inductive Reading (β : Type) where
  | read (value : β)
  | refused (complaint : Complaint)

namespace Reading

variable {β γ : Type}

/-- Applies what has been read to what has been read next. -/
def apply : Reading (β → γ) → Reading β → Reading γ
  | .read f, .read v => .read (f v)
  | .read _, .refused c => .refused c
  | .refused c, .read _ => .refused c
  | .refused c, .refused d => .refused (c.or d)

instance : Applicative Reading where
  pure := .read
  seq f x := apply f (x ())

end Reading

/-- What a value is, for a complaint about it. -/
def got : Json → String
  | .null => "null"
  | .bool b => "boolean `" ++ (if b then "true" else "false") ++ "`"
  | .int n => "integer `" ++ toString n ++ "`"
  | .float x => "floating point `" ++ Written.marked x ++ "`"
  | .str s => "string " ++ Text.quoted s
  | .arr _ => "sequence"
  | .obj _ => "map"

/-- A value of another kind than the one that is wanted. -/
def wrongKind (j : Json) (want : String) : String :=
  "invalid type: " ++ j.got ++ ", expected " ++ want

/-- A text, or why it is none. -/
def wantText (j : Json) : Except String String :=
  match j.text? with
  | some s => .ok s
  | none => .error (j.wrongKind "a string")

/-- A number, or why it is none. -/
def wantNumber (j : Json) : Except String Float :=
  match j.number? with
  | some x => .ok x
  | none => .error (j.wrongKind "f64")

/-- A list of texts, or why it is none. -/
def wantTexts (j : Json) : Except String (List String) :=
  match j.items? with
  | some items => items.mapM wantText
  | none => .error (j.wrongKind "a sequence")

/-- A word, or why it is none; here its field may also hold an empty object. -/
def wantWord (j : Json) : Except String String :=
  match j with
  | .str s => .ok s
  | .obj [(name, value)] =>
    match value with
    | .null | .obj [] => .ok name
    | _ => .error (value.wrongKind "unit")
  | .obj _ => .error "invalid value: map, expected map with a single key"
  | _ => .error (j.wrongKind "string or map")

namespace Record

variable {β : Type}

/-- The reading of the value of a field. -/
def readField (name : String) (want : Json → Except String β) (j : Json) : Reading β :=
  match want j with
  | .ok v => .read v
  | .error detail => .refused (.misfit name detail)

/-- The reading of a field that has to be there. -/
def demand (r : Record) (name : String) (want : Json → Except String β) : Reading β :=
  match r.lookup name with
  | none => .refused (.missing name)
  | some j => readField name want j

/-- The reading of a field that may be absent or `null`. -/
def allow (r : Record) (name : String) (want : Json → Except String β) :
    Reading (Option β) :=
  match r.lookup name with
  | none => .read none
  | some .null => .read none
  | some j => some <$> readField name want j

/-- The reading of a field that may be absent, but not `null`. -/
def allowDefault (r : Record) (name : String) (default : β)
    (want : Json → Except String β) : Reading β :=
  match r.lookup name with
  | none => .read default
  | some j => readField name want j

end Record

end Storyboard.Json
