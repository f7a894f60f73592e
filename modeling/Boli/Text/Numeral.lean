import Boli.Text.Blank
import Boli.Text.DecimalDigit
import Boli.Text.Quoted

/-!
Whole numbers as text.

`read` takes an optional sign and a run of decimal digits of any script, in which single underscores
may separate digits, with blanks around the whole. `write` gives the decimal numeral without leading
zeros. Both refuse numerals of more than `digitLimit` digits, since the cost of a conversion grows
faster than the length of the numeral.
-/

set_option autoImplicit false

namespace Boli.Text.Numeral

/-- The most digits that a conversion takes. -/
def digitLimit : Nat := 4300

/-- Why a conversion between text and number is refused. -/
inductive Fault where
  /-- A numeral that has too many digits to be read, leading zeros included. -/
  | tooLongToRead (digits : Nat)
  /-- A number that has too many digits to be written. -/
  | tooLongToWrite
  /-- A text that is no numeral. -/
  | notANumeral (text : String)
  deriving DecidableEq

/-- The first characters of a quoted text, which are all that a message shows of a long one. -/
def excerpt (s : String) : String := String.ofList ((quoted s).toList.take 200)

/-- The message that reports a fault. -/
def Fault.message : Fault → String
  | .tooLongToRead digits =>
    "Exceeds the limit (4300 digits) for integer string conversion: value has " ++
      toString digits ++ " digits; use sys.set_int_max_str_digits() to increase the limit"
  | .tooLongToWrite =>
    "Exceeds the limit (4300 digits) for integer string conversion; " ++
      "use sys.set_int_max_str_digits() to increase the limit"
  | .notANumeral text => "invalid literal for int() with base 10: " ++ excerpt text

/-- Blanks that may surround a numeral: of ASCII the space and the five layout characters, beyond
ASCII every blank. -/
def isPadding (c : Char) : Bool :=
  if c.toNat < 0x7F then c = ' ' || (9 ≤ c.toNat && c.toNat ≤ 13) else isBlank c

/-- A character of the run of digits: a digit's value, or an underscore. -/
inductive Mark where
  | digit (value : Nat)
  | underscore
  deriving DecidableEq

/-- Reads a character as a part of the run of digits. -/
def Mark.of? (c : Char) : Option Mark :=
  if c = '_' then some .underscore else (digitValue? c).map .digit

/-- The digits and underscores at the front, and the rest. -/
def takeMarks : List Char → List Mark × List Char
  | [] => ([], [])
  | c :: cs =>
    match Mark.of? c with
    | none => ([], c :: cs)
    | some m => let (ms, rest) := takeMarks cs; (m :: ms, rest)

/-- The digits of a run in which every underscore stands between two digits. -/
def separated? : List Mark → Option (List Nat)
  | [] => none
  | [.digit d] => some [d]
  | .digit d :: .underscore :: ms => (separated? ms).map (d :: ·)
  | .digit d :: ms => (separated? ms).map (d :: ·)
  | .underscore :: _ => none

/-- The value of a sequence of digits, the most significant of them first. -/
def ofDigits (digits : List Nat) : Nat := digits.foldl (fun n d => n * 10 + d) 0

/-- Splits a sign off: whether it is a minus, and the rest. -/
def takeSign : List Char → Bool × List Char
  | '-' :: cs => (true, cs)
  | '+' :: cs => (false, cs)
  | cs => (false, cs)

/-- Reads a numeral. Its length is checked before what follows it. -/
def read (s : String) : Except Fault Int :=
  let (negative, cs) := takeSign (s.toList.dropWhile isPadding)
  let (marks, rest) := takeMarks cs
  match separated? marks with
  | none => .error (.notANumeral s)
  | some digits =>
    if digitLimit < digits.length then .error (.tooLongToRead digits.length)
    else if rest.all isPadding then
      let n := ofDigits digits
      .ok (if negative then -n else n)
    else .error (.notANumeral s)

/-- Writes a number. -/
def write (n : Int) : Except Fault String :=
  let cs := Nat.toDigits 10 n.natAbs
  if digitLimit < cs.length then .error .tooLongToWrite
  else .ok (String.ofList (if n < 0 then '-' :: cs else cs))

end Boli.Text.Numeral
