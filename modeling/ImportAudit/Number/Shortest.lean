import ImportAudit.Number.Binary

/-!
# Shortest decimal text

Text of binary numbers. The digits are the fewest that read back as the same number and, of
those, the nearest to it; where the point stands and when an exponent is written is for the
layout to say.
-/

namespace ImportAudit.Number

/-- The decimal without trailing zeros among its digits, which are searched at most `fuel`
places. -/
def dropZeros (fuel : Nat) (digits : Nat) (exponent : Int) : Nat × Int :=
  match fuel with
  | 0 => (digits, exponent)
  | fuel + 1 =>
    if digits ≠ 0 && digits % 10 = 0 then dropZeros fuel (digits / 10) (exponent + 1)
    else (digits, exponent)

/-- The reals that round to a positive binary number, in units of a quarter of its last place:
the bounds, and whether they belong to the range. -/
structure Neighbourhood where
  low : Nat
  centre : Nat
  high : Nat
  unitTop : Nat
  unitBottom : Nat
  closed : Bool

namespace Neighbourhood

/-- The neighbourhood of a positive number. Below a power of two the numbers lie twice as close. -/
def ofBinary (value : Binary) : Neighbourhood :=
  let atPower := value.mantissa = Nat.pow 2 (Binary.precision - 1) &&
    Binary.leastExponent < value.exponent
  let (top, bottom) := Binary.scaleDown 1 1 (2 - value.exponent)
  { low := 4 * value.mantissa - (if atPower then 1 else 2)
    centre := 4 * value.mantissa
    high := 4 * value.mantissa + 2
    unitTop := top
    unitBottom := bottom
    closed := value.mantissa % 2 = 0 }

def powerOfTen (power : Int) : Nat × Nat :=
  if 0 ≤ power then (Nat.pow 10 power.toNat, 1) else (1, Nat.pow 10 (-power).toNat)

/-- A grid point `count * 10 ^ power` and a number of quarter units, both multiplied by what
makes them comparable naturals. -/
def compared (space : Neighbourhood) (power : Int) (count quarters : Nat) : Nat × Nat :=
  let (top, bottom) := powerOfTen power
  (count * top * space.unitBottom, quarters * space.unitTop * bottom)

/-- Whether a grid point reads back as the number. -/
def holds (space : Neighbourhood) (power : Int) (count : Nat) : Bool :=
  let (point, low) := space.compared power count space.low
  let (_, high) := space.compared power count space.high
  if space.closed then low ≤ point && point ≤ high else low < point && point < high

/-- The grid point next to the number that reads back as it, if there is one on this grid. -/
def onGrid? (space : Neighbourhood) (power : Int) : Option Nat :=
  let (step, centre) := space.compared power 1 space.centre
  let below := centre / step
  match space.holds power below, space.holds power (below + 1) with
  | true, true =>
    let rest := centre - below * step
    some (if 2 * rest < step || (2 * rest = step && below % 2 = 0) then below else below + 1)
  | true, false => some below
  | false, true => some (below + 1)
  | false, false => none

/-- The first of `count` grids, each ten times finer than the one before, that has a hit. -/
def search (space : Neighbourhood) : Nat → Int → Nat × Int
  | 0, power => (0, power)
  | count + 1, power =>
    match space.onGrid? power with
    | some digits => (digits, power)
    | none => search space count (power - 1)

end Neighbourhood

/-- More grids than ever separate the size of a number from its last digit. -/
def gridLimit : Nat := 40

def shortest (value : Binary) : Nat × Int :=
  if value.mantissa = 0 then (0, 0)
  else
    let bits : Int := (Nat.log2 value.mantissa : Int) + value.exponent + 1
    let start := Int.fdiv (bits * 30103) 100000 + 2
    let (digits, power) := (Neighbourhood.ofBinary value).search gridLimit start
    dropZeros gridLimit digits power

def decimalDigits (n : Nat) : List Char :=
  Nat.toDigits 10 n

def zeros (count : Nat) : List Char :=
  List.replicate count '0'

/-- Digits times a power of ten, written out with a point where one is needed. -/
def positional (digits : Nat) (power : Int) : List Char :=
  let text := decimalDigits digits
  if 0 ≤ power then text ++ zeros power.toNat
  else
    let places := (-power).toNat
    if places < text.length then
      text.take (text.length - places) ++ '.' :: text.drop (text.length - places)
    else ['0', '.'] ++ zeros (places - text.length) ++ text

/-- The decimal exponent of the first digit. -/
def leadingExponent (digits : Nat) (power : Int) : Int :=
  (decimalDigits digits).length - 1 + power

/-- Digits times a power of ten with an exponent of at least `width` digits. -/
def scientific (width : Nat) (digits : Nat) (power : Int) : List Char :=
  let text := decimalDigits digits
  let exponent := leadingExponent digits power
  let exponentDigits := decimalDigits exponent.natAbs
  let fraction := if text.length ≤ 1 then [] else '.' :: text.drop 1
  text.take 1 ++ fraction ++ ['e', if exponent < 0 then '-' else '+'] ++
    zeros (width - exponentDigits.length) ++ exponentDigits

def signed (value : Binary) (magnitude : List Char) : String :=
  String.ofList (if value.negative then '-' :: magnitude else magnitude)

def plainText (value : Binary) : String :=
  let (digits, power) := shortest value
  signed value (positional digits power)

/-- The layout of numbers in data: written out from a millionth to below 10^21, and otherwise
with an exponent as short as possible below one and of two digits above. -/
def dataText (value : Binary) : String :=
  let (digits, power) := shortest value
  let exponent := leadingExponent digits power
  if digits = 0 || (-6 ≤ exponent && exponent < 21) then signed value (positional digits power)
  else signed value (scientific (if exponent < 0 then 1 else 2) digits power)

/-- The layout of numbers in log records: written out from a ten-thousandth to below a million. -/
def logText (value : Binary) : String :=
  let (digits, power) := shortest value
  let exponent := leadingExponent digits power
  if digits = 0 || (-4 ≤ exponent && exponent < 6) then signed value (positional digits power)
  else signed value (scientific 2 digits power)

/-- The number with exactly six decimal places, a half going to the even neighbour. -/
def sixPlaces (value : Binary) : String :=
  let (top, bottom) := Binary.scaleDown (value.mantissa * 1000000) 1 (-value.exponent)
  let text := decimalDigits (roundDiv top bottom)
  let padded := zeros (7 - text.length) ++ text
  signed value (padded.take (padded.length - 6) ++ '.' :: padded.drop (padded.length - 6))

end ImportAudit.Number
