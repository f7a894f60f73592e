import Boli.Decimal.Shortest
import Boli.Json
import Boli.Text.Quoted

/-!
Values as messages show them.

`Json.shown` puts texts between quotes at every depth and names the constants `None`, `True` and
`False`; `Json.display` is the same but gives a text itself without quotes.
-/

set_option autoImplicit false

namespace Boli.Json

open Boli.Text (quoted)

/-- The text of a floating-point number. -/
def floatText (x : Float) : String := (Decimal.Reading.ofBits x.toBits).write Decimal.plain

mutual

/-- A value inside a message. -/
def shown : Json → String
  | null => "None"
  | bool true => "True"
  | bool false => "False"
  | int n => toString n
  | float x => floatText x
  | text s => quoted s
  | array elements => "[" ++ ", ".intercalate (shownElements elements) ++ "]"
  | object fields => "\x7b" ++ ", ".intercalate (shownFields fields) ++ "\x7d"

/-- The elements of an array inside a message. -/
def shownElements : List Json → List String
  | [] => []
  | a :: as => shown a :: shownElements as

/-- The fields of an object inside a message. -/
def shownFields : List (String × Json) → List String
  | [] => []
  | (k, a) :: as => (quoted k ++ ": " ++ shown a) :: shownFields as

end

/-- A value as a message of its own: a text stands for itself. -/
def display : Json → String
  | text s => s
  | v => shown v

end Boli.Json
