import Storyboard.Text.Shapeless

/-!
# Quoted texts

A text between double quotes, in which the quote, the backslash and everything
without a shape of its own is written as an escape.
-/

namespace Storyboard.Text

/-- A code point in hexadecimal digits between braces. -/
def codePoint (c : Char) : String :=
  "\\u\x7b" ++ String.ofList (Nat.toDigits 16 c.toNat) ++ "\x7d"

/-- How one character is written between double quotes. -/
def quotedChar (c : Char) : String :=
  match c with
  | '"' => "\\\""
  | '\\' => "\\\\"
  | '\n' => "\\n"
  | '\r' => "\\r"
  | '\t' => "\\t"
  | '\x00' => "\\0"
  | _ =>
    if c.toNat < 0x20 || c.toNat == 0x7F then codePoint c
    else if c.toNat < 0x7F then c.toString
    else if isShapeless c then codePoint c
    else c.toString

/-- A text between double quotes. -/
def quoted (s : String) : String :=
  s.toList.foldl (fun out c => out ++ quotedChar c) "\"" ++ "\""

end Storyboard.Text
