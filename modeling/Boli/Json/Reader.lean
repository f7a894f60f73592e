import Boli.Decimal.Shortest
import Boli.Json
import Boli.Text.Loose
import Boli.Text.Numeral

/-!
Reading plain data from text.

The grammar is the usual one for JSON, with three more constants, `NaN`, `Infinity` and
`-Infinity`. A numeral without fraction and exponent is a whole number and is held to
`Numeral.digitLimit`; any other is a floating-point number. Of the fields of an object with one name
the last gives the value and the first the place. Two escapes that form a surrogate pair are one
character. A surrogate on its own is no character; it is read as a private use character that stands
for it, out of a block of them that the whole text does not mention (`standIns`), so that texts with
different surrogates stay different.
-/

set_option autoImplicit false

namespace Boli.Json

open Boli.Text (Block CodePoint Loose doubleQuote)
open Boli.Text.Numeral (digitLimit ofDigits)

/-- Why a text is no plain data. -/
inductive Fault where
  /-- The text does not follow the grammar. -/
  | malformed
  /-- A whole number has too many digits. -/
  | tooLong (digits : Nat)
  deriving DecidableEq

/-- White space between the parts of a text. -/
def isGap (c : Char) : Bool := c = ' ' || c = '\t' || c = '\n' || c = '\r'

/-- Drops the white space at the front. -/
def skipGap (cs : List Char) : List Char := cs.dropWhile isGap

/-! ## Texts -/

/-- The value of a hexadecimal digit. -/
def hexValue? (c : Char) : Option Nat :=
  if c.isDigit then some (c.toNat - 48)
  else if 'a' ≤ c ∧ c ≤ 'f' then some (c.toNat - 87)
  else if 'A' ≤ c ∧ c ≤ 'F' then some (c.toNat - 55)
  else none

/-- The value of four hexadecimal digits. -/
def hex4? (a b c d : Char) : Option Nat := do
  let a ← hexValue? a
  let b ← hexValue? b
  let c ← hexValue? c
  let d ← hexValue? d
  return ((a * 16 + b) * 16 + c) * 16 + d

/-- The code point that a one-letter escape stands for. -/
def letterEscape? (c : Char) : Option Nat :=
  if c = doubleQuote ∨ c = '\\' ∨ c = '/' then some c.toNat
  else if c = 'b' then some 8
  else if c = 'f' then some 12
  else if c = 'n' then some 10
  else if c = 'r' then some 13
  else if c = 't' then some 9
  else none

/-- Reads up to the closing quote: code points, surrogates not yet joined. -/
def readUnits : List Char → Except Fault (List Nat × List Char)
  | [] => .error .malformed
  | c :: rest =>
    if c = doubleQuote then .ok ([], rest)
    else if c = '\\' then
      match rest with
      | [] => .error .malformed
      | e :: rest =>
        if e = 'u' then
          match rest with
          | a :: b :: c :: d :: rest =>
            match hex4? a b c d with
            | none => .error .malformed
            | some n => (fun (ns, rest) => (n :: ns, rest)) <$> readUnits rest
          | _ => .error .malformed
        else
          match letterEscape? e with
          | none => .error .malformed
          | some n => (fun (ns, rest) => (n :: ns, rest)) <$> readUnits rest
    else if c.toNat < 0x20 then .error .malformed
    else (fun (ns, rest) => (c.toNat :: ns, rest)) <$> readUnits rest

/-- A high surrogate, the first half of a pair. -/
def isHighSurrogate (n : Nat) : Bool := 0xD800 ≤ n && n ≤ 0xDBFF

/-- A low surrogate, the second half of a pair. -/
def isLowSurrogate (n : Nat) : Bool := 0xDC00 ≤ n && n ≤ 0xDFFF

/-- Joins surrogate pairs. -/
def joinSurrogates : List Nat → Loose
  | [] => []
  | [n] => [.ofNat n]
  | h :: l :: rest =>
    if isHighSurrogate h && isLowSurrogate l then
      .char (Char.ofNat (0x10000 + (h - 0xD800) * 0x400 + (l - 0xDC00))) :: joinSurrogates rest
    else .ofNat h :: joinSurrogates (l :: rest)

/-- The number of the character that a code point is or may begin: a high surrogate may begin any of
1024 characters, and this is the first of them. -/
def mention (n : Nat) : Nat := if isHighSurrogate n then 0x10000 + (n - 0xD800) * 0x400 else n

/-- The number that an escape at the front of a text mentions. -/
def escapedNumber? : List Char → Option Nat
  | '\\' :: 'u' :: a :: b :: c :: d :: _ => (hex4? a b c d).map mention
  | _ => none

/-- The numbers of the characters of a text and of those that its escapes mention. -/
def mentioned : List Char → List Nat
  | [] => []
  | c :: cs => c.toNat :: (escapedNumber? (c :: cs)).toList ++ mentioned cs

/-- The characters that stand for lone surrogates in what is read from a text. -/
def standIns (cs : List Char) : Block := .free (mentioned cs)

section

variable (block : Block)

/-- Reads a text whose opening quote has been read. -/
def readText (cs : List Char) : Except Fault (String × List Char) :=
  (fun (ns, rest) => ((joinSurrogates ns).text block, rest)) <$> readUnits cs

end

/-! ## Numbers -/

/-- The values of a run of ASCII digits. -/
def digitValues (cs : List Char) : List Nat := cs.map (·.toNat - 48)

/-- The fraction's digits, if a point and a digit stand here. -/
def readFraction? : List Char → Option (List Char × List Char)
  | '.' :: cs =>
    let ds := cs.takeWhile Char.isDigit
    if ds.isEmpty then none else some (ds, cs.dropWhile Char.isDigit)
  | _ => none

/-- The exponent, if one stands here. -/
def readExponent? : List Char → Option (Int × List Char)
  | e :: cs =>
    if e = 'e' ∨ e = 'E' then
      let (negative, cs) := match cs with
        | '-' :: cs => (true, cs)
        | '+' :: cs => (false, cs)
        | cs => (false, cs)
      let ds := cs.takeWhile Char.isDigit
      let n := ofDigits (digitValues ds)
      if ds.isEmpty then none
      else some (if negative then -(n : Int) else n, cs.dropWhile Char.isDigit)
    else none
  | [] => none

/-- The digits before the point: a zero alone, or a run that starts with none. -/
def readWhole? : List Char → Option (List Char × List Char)
  | '0' :: cs => some (['0'], cs)
  | cs =>
    let ds := cs.takeWhile Char.isDigit
    if ds.isEmpty then none else some (ds, cs.dropWhile Char.isDigit)

/-- Reads a number, its sign already read. -/
def readNumber (negative : Bool) (cs : List Char) : Except Fault (Json × List Char) :=
  match readWhole? cs with
  | none => .error .malformed
  | some (whole, afterWhole) =>
    let (fraction, afterFraction) := (readFraction? afterWhole).getD ([], afterWhole)
    let exponent? := readExponent? afterFraction
    if fraction.isEmpty ∧ exponent?.isNone then
      if digitLimit < whole.length then .error (.tooLong whole.length)
      else
        let n := ofDigits (digitValues whole)
        .ok (int (if negative then -(n : Int) else n), afterWhole)
    else
      let (exponent, rest) := exponent?.getD (0, afterFraction)
      let mantissa := ofDigits (digitValues (whole ++ fraction))
      let x := Decimal.toFloat mantissa (exponent - fraction.length)
      .ok (float (if negative then -x else x), rest)

/-! ## Values -/

section

variable (block : Block)

/-- The words that stand for values. -/
def constants : List (List Char × Json) :=
  [("null".toList, null), ("true".toList, bool true), ("false".toList, bool false),
    ("NaN".toList, float (0.0 / 0.0)), ("Infinity".toList, float (1.0 / 0.0)),
    ("-Infinity".toList, float (-1.0 / 0.0))]

/-- Reads a word that stands for a value. -/
def readConstant? (cs : List Char) : Option (Json × List Char) :=
  (constants.find? fun (word, _) => word.isPrefixOf cs).map
    fun (word, value) => (value, cs.drop word.length)

mutual

/-- Reads a value. Each nested value has one unit of fuel less. -/
def readValue : Nat → List Char → Except Fault (Json × List Char)
  | 0, _ => .error .malformed
  | fuel + 1, cs =>
    match readConstant? cs with
    | some part => .ok part
    | none =>
      match cs with
      | '[' :: rest =>
        match skipGap rest with
        | ']' :: rest => .ok (array [], rest)
        | rest => (fun (vs, rest) => (array vs, rest)) <$> readElements fuel rest
      | '\x7b' :: rest =>
        match skipGap rest with
        | '\x7d' :: rest => .ok (object [], rest)
        | rest =>
          (fun (fs, rest) => (object (Dictionary.putAll [] fs), rest)) <$> readFields fuel rest
      | '-' :: rest => readNumber true rest
      | c :: rest =>
        if c = doubleQuote then (fun (s, rest) => (text s, rest)) <$> readText block rest
        else readNumber false (c :: rest)
      | [] => .error .malformed

/-- Reads one or more elements up to the closing bracket. -/
def readElements : Nat → List Char → Except Fault (List Json × List Char)
  | 0, _ => .error .malformed
  | fuel + 1, cs => do
    let (v, rest) ← readValue fuel cs
    match skipGap rest with
    | ']' :: rest => return ([v], rest)
    | ',' :: rest =>
      let (vs, rest) ← readElements fuel (skipGap rest)
      return (v :: vs, rest)
    | _ => throw .malformed

/-- Reads one or more fields up to the closing brace. -/
def readFields : Nat → List Char → Except Fault (List (String × Json) × List Char)
  | 0, _ => .error .malformed
  | fuel + 1, cs =>
    match cs with
    | [] => .error .malformed
    | q :: rest =>
      if q ≠ doubleQuote then .error .malformed
      else do
        let (k, rest) ← readText block rest
        match skipGap rest with
        | ':' :: rest =>
          let (v, rest) ← readValue fuel (skipGap rest)
          match skipGap rest with
          | '\x7d' :: rest => return ([(k, v)], rest)
          | ',' :: rest =>
            let (fs, rest) ← readFields fuel (skipGap rest)
            return ((k, v) :: fs, rest)
          | _ => throw .malformed
        | _ => throw .malformed

end

end

/-- Reads a text that holds one value and white space around it. A value and its place in a
container cost two units of fuel and at least one character. -/
def read (cs : List Char) : Except Fault Json := do
  let (v, rest) ← readValue (standIns cs) (2 * cs.length + 1) (skipGap cs)
  if (skipGap rest).isEmpty then return v else throw .malformed

end Boli.Json
