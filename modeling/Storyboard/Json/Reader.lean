import Storyboard.Json.Basic

/-!
# Reading JSON

A reader for one JSON text by descent on its characters.  Of two fields of one
name the later counts, and the fields of an object are put into the order of
their names.  A number without fraction and exponent is an integer if it fits
into 64 bits; the negative zero and every other number is the nearest double.
-/

namespace Storyboard.Json.Reader

/-- The blanks that may stand between the signs of a JSON text. -/
def isSpace (c : Char) : Bool := c == ' ' || c == '\n' || c == '\t' || c == '\r'

/-- A source without the blanks at its front. -/
def skip (source : List Char) : List Char := source.dropWhile isSpace

/-- The value of a hexadecimal digit. -/
def hexDigit? (c : Char) : Option Nat :=
  if '0' ≤ c ∧ c ≤ '9' then some (c.toNat - '0'.toNat)
  else if 'a' ≤ c ∧ c ≤ 'f' then some (c.toNat - 'a'.toNat + 10)
  else if 'A' ≤ c ∧ c ≤ 'F' then some (c.toNat - 'A'.toNat + 10)
  else none

/-- The sixteen-bit unit of four hexadecimal digits. -/
def unit? (a b c d : Char) : Option Nat := do
  let a ← hexDigit? a
  let b ← hexDigit? b
  let c ← hexDigit? c
  let d ← hexDigit? d
  return ((a * 16 + b) * 16 + c) * 16 + d

/-- A piece of a string: a character, or a unit that was escaped by its number. -/
inductive Piece where
  | char (c : Char)
  | unit (n : Nat)

/-- The pieces up to the closing quote, and what comes behind it. -/
def pieces : List Char → Option (List Piece × List Char)
  | [] => none
  | '"' :: rest => some ([], rest)
  | '\\' :: 'u' :: a :: b :: c :: d :: rest => do
    let n ← unit? a b c d
    let (more, rest) ← pieces rest
    return (.unit n :: more, rest)
  | '\\' :: e :: rest => do
    let c ← match e with
      | '"' => some '"'
      | '\\' => some '\\'
      | '/' => some '/'
      | 'b' => some '\x08'
      | 'f' => some '\x0c'
      | 'n' => some '\n'
      | 'r' => some '\r'
      | 't' => some '\t'
      | _ => none
    let (more, rest) ← pieces rest
    return (.char c :: more, rest)
  | c :: rest =>
    if c.toNat < 0x20 then none
    else do
      let (more, rest) ← pieces rest
      return (.char c :: more, rest)

/-- Joins the pieces; a high surrogate needs the low one behind it. -/
def join : List Piece → Option (List Char)
  | [] => some []
  | .char c :: rest => (join rest).map (c :: ·)
  | [.unit n] =>
    if 0xD800 ≤ n ∧ n < 0xE000 then none else some [Char.ofNat n]
  | .unit high :: .unit low :: rest =>
    if 0xD800 ≤ high ∧ high < 0xDC00 then
      if 0xDC00 ≤ low ∧ low < 0xE000 then
        (join rest).map
          (Char.ofNat (0x10000 + (high - 0xD800) * 0x400 + (low - 0xDC00)) :: ·)
      else none
    else if 0xDC00 ≤ high ∧ high < 0xE000 then none
    else (join (.unit low :: rest)).map (Char.ofNat high :: ·)
  | .unit n :: .char c :: rest =>
    if 0xD800 ≤ n ∧ n < 0xE000 then none
    else (join rest).map (Char.ofNat n :: c :: ·)

/-- The text behind an opening quote, and what comes behind the closing one. -/
def text (source : List Char) : Option (String × List Char) := do
  let (parts, rest) ← pieces source
  let chars ← join parts
  return (String.ofList chars, rest)

/-- The number that a run of decimal digits stands for. -/
def natOf (digits : List Char) : Nat :=
  digits.foldl (fun n c => 10 * n + (c.toNat - '0'.toNat)) 0

/-- A run of digits and what comes behind it. -/
def digitsOf (source : List Char) : List Char × List Char :=
  (source.takeWhile Char.isDigit, source.dropWhile Char.isDigit)

/-- The digits of a fraction, if there is one. -/
def fraction (source : List Char) : Option (Option (List Char) × List Char) :=
  match source with
  | '.' :: rest =>
    match digitsOf rest with
    | ([], _) => none
    | (digits, rest) => some (some digits, rest)
  | _ => some (none, source)

/-- The power of ten of an exponent, if there is one. -/
def power (source : List Char) : Option (Option Int × List Char) :=
  match source with
  | e :: rest =>
    if e == 'e' || e == 'E' then
      let (negative, rest) := match rest with
        | '-' :: rest => (true, rest)
        | '+' :: rest => (false, rest)
        | _ => (false, rest)
      match digitsOf rest with
      | ([], _) => none
      | (digits, rest) =>
        let n : Int := natOf digits
        some (some (if negative then -n else n), rest)
    else some (none, source)
  | [] => some (none, source)

/-- The double nearest to a decimal. -/
def nearest (negative : Bool) (digits : Nat) (exponent : Int) : Float :=
  let x :=
    if exponent < 0 then Float.ofScientific digits true exponent.natAbs
    else Float.ofScientific digits false exponent.natAbs
  if negative then -x else x

/-- An integer if it fits into 64 bits, otherwise the nearest double. -/
def integer (negative : Bool) (n : Nat) : Json :=
  if negative then
    if n = 0 then .float (nearest true 0 0)
    else if n ≤ Nat.pow 2 63 then .int (-(n : Int))
    else .float (nearest true n 0)
  else if n < Nat.pow 2 64 then .int n
  else .float (nearest false n 0)

/-- A number and what comes behind it; one beyond the doubles is refused. -/
def number (source : List Char) : Option (Json × List Char) := do
  let (negative, source) := match source with
    | '-' :: rest => (true, rest)
    | _ => (false, source)
  let (whole, rest) := digitsOf source
  if whole.isEmpty || (whole.length > 1 && whole.head? == some '0') then none
  else
    let (tail, rest) ← fraction rest
    let (ten, rest) ← power rest
    match tail, ten with
    | none, none => return (integer negative (natOf whole), rest)
    | _, _ =>
      let behind := tail.getD []
      let x := nearest negative (natOf (whole ++ behind)) (ten.getD 0 - behind.length)
      if Scalar.isFinite x then return (.float x, rest) else none

/-- Puts a field into its place among fields in the order of their names. -/
def place (name : String) (value : Json) : List (String × Json) → List (String × Json)
  | [] => [(name, value)]
  | (other, old) :: rest =>
    if name < other then (name, value) :: (other, old) :: rest
    else if name = other then (name, value) :: rest
    else (other, old) :: place name value rest

mutual

/-- A value and what comes behind it; `fuel` bounds the depth and width of what is read. -/
def value (fuel : Nat) (source : List Char) : Option (Json × List Char) :=
  match fuel with
  | 0 => none
  | fuel + 1 =>
    match skip source with
    | 'n' :: 'u' :: 'l' :: 'l' :: rest => some (.null, rest)
    | 't' :: 'r' :: 'u' :: 'e' :: rest => some (.bool true, rest)
    | 'f' :: 'a' :: 'l' :: 's' :: 'e' :: rest => some (.bool false, rest)
    | '"' :: rest => (text rest).map fun (s, rest) => (.str s, rest)
    | '[' :: rest =>
      match skip rest with
      | ']' :: rest => some (.arr [], rest)
      | _ => (items fuel [] rest).map fun (l, rest) => (.arr l, rest)
    | '{' :: rest =>
      match skip rest with
      | '}' :: rest => some (.obj [], rest)
      | _ => (fields fuel [] rest).map fun (l, rest) => (.obj l, rest)
    | source => number source

/-- The items of an array up to its bracket, behind those `read` so far. -/
def items (fuel : Nat) (read : List Json) (source : List Char) :
    Option (List Json × List Char) :=
  match fuel with
  | 0 => none
  | fuel + 1 =>
    match value fuel source with
    | none => none
    | some (v, rest) =>
      match skip rest with
      | ',' :: rest => items fuel (v :: read) rest
      | ']' :: rest => some ((v :: read).reverse, rest)
      | _ => none

/-- The fields of an object up to its brace, placed among those `read` so far. -/
def fields (fuel : Nat) (read : List (String × Json)) (source : List Char) :
    Option (List (String × Json) × List Char) :=
  match fuel with
  | 0 => none
  | fuel + 1 =>
    match skip source with
    | '"' :: rest =>
      match text rest with
      | none => none
      | some (name, rest) =>
        match skip rest with
        | ':' :: rest =>
          match value fuel rest with
          | none => none
          | some (v, rest) =>
            match skip rest with
            | ',' :: rest => fields fuel (place name v read) rest
            | '}' :: rest => some (place name v read, rest)
            | _ => none
        | _ => none
    | _ => none

end

end Storyboard.Json.Reader

namespace Storyboard.Json

/-- The value of a JSON text; a step of the reader takes a character, which bounds them. -/
def parse? (source : String) : Option Json :=
  let chars := source.toList
  match Reader.value (2 * chars.length + 2) chars with
  | some (v, rest) => if (Reader.skip rest).isEmpty then some v else none
  | none => none

end Storyboard.Json
