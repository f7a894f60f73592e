import Boli.Json.Shown

/-!
Plain data written out in ASCII.

Every character outside U+0020 to U+007E is escaped, one above U+FFFF as a pair of surrogates.
`compact` writes no white space; `indented` puts each element on a line of its own, two blanks
deeper than its container, and leaves empty containers on one line.
-/

set_option autoImplicit false

namespace Boli.Json

open Boli.Text (doubleQuote hexDigits)

/-- The written form of a 16-bit unit. -/
def unitEscape (n : Nat) : List Char := '\\' :: 'u' :: hexDigits 4 n

/-- One character inside a written text. -/
def escapeChar (c : Char) : List Char :=
  let n := c.toNat
  if c = doubleQuote ∨ c = '\\' then ['\\', c]
  else if c = '\n' then ['\\', 'n']
  else if c = '\r' then ['\\', 'r']
  else if c = '\t' then ['\\', 't']
  else if n = 8 then ['\\', 'b']
  else if n = 12 then ['\\', 'f']
  else if 0x20 ≤ n ∧ n ≤ 0x7E then [c]
  else if n < 0x10000 then unitEscape n
  else unitEscape (0xD800 + (n - 0x10000) / 0x400) ++ unitEscape (0xDC00 + (n - 0x10000) % 0x400)

/-- A text between double quotes. -/
def writeText (s : String) : String :=
  String.ofList (doubleQuote :: s.toList.flatMap escapeChar ++ [doubleQuote])

/-- A floating-point number; the three values that are no number have names. -/
def writeFloat (x : Float) : String :=
  match Decimal.Reading.ofBits x.toBits with
  | .nan => "NaN"
  | .infinite negative => if negative then "-Infinity" else "Infinity"
  | _ => floatText x

mutual

/-- Writes a value without any white space. -/
def compact : Json → String
  | null => "null"
  | bool true => "true"
  | bool false => "false"
  | int n => toString n
  | float x => writeFloat x
  | text s => writeText s
  | array elements => "[" ++ ",".intercalate (compactElements elements) ++ "]"
  | object fields => "\x7b" ++ ",".intercalate (compactFields fields) ++ "\x7d"

/-- The elements of an array, each without white space. -/
def compactElements : List Json → List String
  | [] => []
  | a :: as => compact a :: compactElements as

/-- The fields of an object, each without white space. -/
def compactFields : List (String × Json) → List String
  | [] => []
  | (k, a) :: as => (writeText k ++ ":" ++ compact a) :: compactFields as

end

/-- The start of a line at a depth. -/
def newLine (depth : Nat) : String := String.ofList ('\n' :: List.replicate (2 * depth) ' ')

/-- Items on lines of their own between brackets, or the two brackets alone. -/
def bracketed (opening closing : String) (depth : Nat) (items : List String) : String :=
  if items.isEmpty then opening ++ closing
  else
    opening ++ newLine (depth + 1) ++ ("," ++ newLine (depth + 1)).intercalate items ++
      newLine depth ++ closing

mutual

/-- Writes a value whose first line stands at a depth. -/
def indentedAt (depth : Nat) : Json → String
  | array elements => bracketed "[" "]" depth (indentedElements (depth + 1) elements)
  | object fields => bracketed "\x7b" "\x7d" depth (indentedFields (depth + 1) fields)
  | null => "null"
  | bool true => "true"
  | bool false => "false"
  | int n => toString n
  | float x => writeFloat x
  | text s => writeText s

/-- The elements of an array at a depth. -/
def indentedElements (depth : Nat) : List Json → List String
  | [] => []
  | a :: as => indentedAt depth a :: indentedElements depth as

/-- The fields of an object at a depth. -/
def indentedFields (depth : Nat) : List (String × Json) → List String
  | [] => []
  | (k, a) :: as => (writeText k ++ ": " ++ indentedAt depth a) :: indentedFields depth as

end

/-- Writes a value on several lines. -/
def indented (v : Json) : String := indentedAt 0 v

end Boli.Json
