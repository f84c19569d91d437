import Storyboard.Json.Basic
import Storyboard.Number.Written

/-!
# Writing JSON

The text of a JSON value on one line.  A double always shows a fraction or an
exponent, which keeps it apart from an integer.  Line separators are escaped, so
that no reader breaks the line at one.
-/

namespace Storyboard.Json

/-- Four hexadecimal digits. -/
def fourHex (n : Nat) : String :=
  String.ofList ((Nat.toDigits 16 n).leftpad 4 '0')

/-- How one character is written inside a string. -/
def escapedChar (c : Char) : String :=
  match c with
  | '"' => "\\\""
  | '\\' => "\\\\"
  | '\n' => "\\n"
  | '\r' => "\\r"
  | '\t' => "\\t"
  | _ =>
    let n := c.toNat
    if n < 0x20 || n == 0x7F || n == 0x85 || n == 0x2028 || n == 0x2029 then
      "\\u" ++ fourHex n
    else c.toString

/-- Adds a string with its quotes. -/
def writeText (out s : String) : String :=
  s.toList.foldl (fun out c => out ++ escapedChar c) (out ++ "\"") ++ "\""

mutual

/-- Adds the text of a value to what has been written. -/
def write (out : String) : Json → String
  | .null => out ++ "null"
  | .bool b => out ++ (if b then "true" else "false")
  | .int n => out ++ toString n
  | .float x => out ++ Written.marked x
  | .str s => writeText out s
  | .arr items => writeItems (out ++ "[") true items ++ "]"
  | .obj fields => writeFields (out ++ "\x7b") true fields ++ "\x7d"

/-- Adds the values of an array with commas between them. -/
def writeItems (out : String) (first : Bool) : List Json → String
  | [] => out
  | item :: rest =>
    writeItems (write (if first then out else out ++ ",") item) false rest

/-- Adds the fields of an object with commas between them. -/
def writeFields (out : String) (first : Bool) : List (String × Json) → String
  | [] => out
  | (name, value) :: rest =>
    let out := writeText (if first then out else out ++ ",") name
    writeFields (write (out ++ ":") value) false rest

end

/-- The text of a value. -/
def render (j : Json) : String := write "" j

end Storyboard.Json
