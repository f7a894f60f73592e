/-!
The shortest decimal text of a binary floating-point number.

A finite number is `mantissa · 2 ^ exponent`. Of all decimals that round back to it the text takes
one with the fewest digits, and of those the nearest. The search walks the decimal grids from
coarse to fine and tests, in exact arithmetic on naturals, the two points of each grid that enclose
the number.
-/

set_option autoImplicit false

namespace Boli.Decimal

/-- A positive finite number `mantissa · 2 ^ exponent`, with the mantissa in binary64's range. -/
structure Magnitude where
  mantissa : Nat
  exponent : Int
  deriving DecidableEq

/-- Decimal digits behind a leading point: `0.d₁d₂… · 10 ^ point`. -/
structure Digits where
  digits : Nat
  point : Int
  deriving DecidableEq

/-- What the bits of a number stand for. -/
inductive Reading where
  | nan
  | infinite (negative : Bool)
  | zero (negative : Bool)
  | finite (negative : Bool) (magnitude : Magnitude)
  deriving DecidableEq

/-- A power of two. -/
def twoTo (n : Nat) : Nat := Nat.pow 2 n

/-- A power of ten. -/
def tenTo (n : Nat) : Nat := Nat.pow 10 n

/-- Takes the sign, the exponent and the fraction out of the 64 bits. -/
def Reading.ofBits (bits : UInt64) : Reading :=
  let negative := bits >>> 63 != 0
  let exponent := ((bits >>> 52) &&& 0x7FF).toNat
  let fraction := (bits &&& 0xFFFFFFFFFFFFF).toNat
  if exponent = 0x7FF then if fraction = 0 then .infinite negative else .nan
  else if exponent = 0 then
    if fraction = 0 then .zero negative else .finite negative ⟨fraction, -1074⟩
  else .finite negative ⟨fraction + twoTo 52, (exponent : Int) - 1075⟩

namespace Magnitude

/-- The number and its neighbourhood as quotients by one denominator: every real from `low` to
`high` rounds to the number, the ends included when its mantissa is even. -/
structure Interval where
  low : Nat
  value : Nat
  high : Nat
  denominator : Nat
  closed : Bool

/-- The reals that round to a magnitude. Below a power of two the neighbour is half as far. -/
def interval (x : Magnitude) : Interval :=
  let scale := twoTo x.exponent.toNat
  let below := if x.mantissa = twoTo 52 ∧ x.exponent ≠ -1074 then 1 else 2
  { low := (4 * x.mantissa - below) * scale
    value := 4 * x.mantissa * scale
    high := (4 * x.mantissa + 2) * scale
    denominator := 4 * twoTo (-x.exponent).toNat
    closed := x.mantissa % 2 = 0 }

/-- The decimal `digits · 10 ^ exponent`, multiplied by the denominator, over `10 ^ (-exponent)`:
numerator and the factor that the interval's bounds are multiplied with. -/
def gridPoint (i : Interval) (digits : Nat) (exponent : Int) : Nat × Nat :=
  (digits * tenTo exponent.toNat * i.denominator, tenTo (-exponent).toNat)

/-- Whether a decimal rounds to the number of the interval. -/
def Interval.holds (i : Interval) (digits : Nat) (exponent : Int) : Bool :=
  let (point, factor) := gridPoint i digits exponent
  if i.closed then i.low * factor ≤ point && point ≤ i.high * factor
  else i.low * factor < point && point < i.high * factor

/-- The decimal of a grid just below the number, or on it. -/
def Interval.floorOn (i : Interval) (exponent : Int) : Nat :=
  i.value * tenTo (-exponent).toNat / (i.denominator * tenTo exponent.toNat)

/-- Whether the upper of the two neighbours on a grid is nearer; a tie goes to the even one. -/
def Interval.upperIsNearer (i : Interval) (lower : Nat) (exponent : Int) : Bool :=
  let twice := 2 * i.value * tenTo (-exponent).toNat
  let middle := (2 * lower + 1) * tenTo exponent.toNat * i.denominator
  middle < twice || (middle == twice && lower % 2 == 1)

/-- The least `point` with the number below `10 ^ point`. -/
def Interval.pointFrom (i : Interval) : Nat → Int → Int
  | 0, point => point
  | fuel + 1, point =>
    if i.value * tenTo (-point).toNat < i.denominator * tenTo point.toNat then point
    else i.pointFrom fuel (point + 1)

/-- The decimal place of the first digit. A binary64 number lies between `10 ^ (-324)` and
`10 ^ 309`. -/
def Interval.point (i : Interval) : Int := i.pointFrom 640 (-324)

/-- Tries grids of `count` digits and more, and settles for the lower neighbour at the finest. -/
def Interval.search (i : Interval) (point : Int) : Nat → Nat → Digits
  | 0, count => ⟨i.floorOn (point - count), point⟩
  | fuel + 1, count =>
    let exponent := point - count
    let lower := i.floorOn exponent
    let upper := lower + 1
    let digits? :=
      match i.holds lower exponent, i.holds upper exponent with
      | true, true => some (if i.upperIsNearer lower exponent then upper else lower)
      | true, false => some lower
      | false, true => some upper
      | false, false => none
    match digits? with
    | some digits => if digits = tenTo count then ⟨1, point + 1⟩ else ⟨digits, point⟩
    | none => i.search point fuel (count + 1)

/-- The fewest digits that round back to the number; seventeen always do. -/
def shortest (x : Magnitude) : Digits :=
  let i := x.interval
  i.search i.point 17 1

end Magnitude

/-- How numbers are written out: positional for `low < point ≤ high`, else with an exponent of at
least two digits and a sign; a whole number keeps `.0`. -/
structure Style where
  low : Int
  high : Int
  nan : String
  infinity : String

/-- The style of numbers in messages and plain data. -/
def plain : Style := ⟨-4, 16, "nan", "inf"⟩

/-- Decimal digits without trailing zeros. -/
def Digits.text (d : Digits) : List Char :=
  let cs := Nat.toDigits 10 d.digits
  (cs.reverse.dropWhile (· == '0')).reverse

/-- The exponent of a number in scientific form. -/
def exponentText (e : Int) : List Char :=
  let sign := if e < 0 then '-' else '+'
  let cs := Nat.toDigits 10 e.natAbs
  'e' :: sign :: (if cs.length < 2 then '0' :: cs else cs)

/-- Writes digits in a style. -/
def Digits.write (style : Style) (d : Digits) : List Char :=
  let cs := d.text
  if style.low < d.point ∧ d.point ≤ style.high then
    if d.point ≤ 0 then '0' :: '.' :: List.replicate (-d.point).toNat '0' ++ cs
    else
      let whole := d.point.toNat
      if cs.length ≤ whole then cs ++ List.replicate (whole - cs.length) '0' ++ ['.', '0']
      else cs.take whole ++ '.' :: cs.drop whole
  else
    let fraction := cs.drop 1
    cs.take 1 ++ (if fraction.isEmpty then [] else '.' :: fraction) ++ exponentText (d.point - 1)

/-- The text of a number in a style. -/
def Reading.write (style : Style) : Reading → String
  | .nan => style.nan
  | .infinite negative => (if negative then "-" else "") ++ style.infinity
  | .zero negative => if negative then "-0.0" else "0.0"
  | .finite negative x =>
    (if negative then "-" else "") ++ String.ofList (x.shortest.write style)

/-- The number `mantissa · 10 ^ exponent`, rounded to the nearest binary64. A decimal beyond the
range is decided by its size alone, so that no huge power is taken. -/
def toFloat (mantissa : Nat) (exponent : Int) : Float :=
  let size : Int := (Nat.toDigits 10 mantissa).length + exponent
  if mantissa = 0 ∨ size < -330 then 0.0
  else if 310 < size then 1.0 / 0.0
  else Float.ofScientific mantissa (exponent < 0) exponent.natAbs

end Boli.Decimal
