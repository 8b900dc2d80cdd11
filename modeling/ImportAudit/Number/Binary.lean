/-!
# Binary numbers

Numbers in binary floating point with 53 significant bits, by exact arithmetic on naturals: the
nearest such number to a decimal or to a quotient, ties going to the even neighbour.
-/

namespace ImportAudit.Number

/-- The quotient rounded to the nearest natural, a half going to the even neighbour. -/
def roundDiv (numerator denominator : Nat) : Nat :=
  let floor := numerator / denominator
  let twice := 2 * (numerator % denominator)
  if twice < denominator then floor
  else if denominator < twice then floor + 1
  else if floor % 2 = 0 then floor else floor + 1

/-- A decimal number: a sign, digits, and the power of ten that they are multiplied by. -/
structure Decimal where
  negative : Bool
  digits : Nat
  exponent : Int
  deriving DecidableEq, Repr

/-- A finite binary number: a sign, at most 53 bits, and the power of two they are multiplied
by. -/
structure Binary where
  negative : Bool
  mantissa : Nat
  exponent : Int
  deriving DecidableEq, Repr

namespace Binary

/-- The bits of a full mantissa. -/
def precision : Nat := 53

/-- The least exponent, which the numbers nearest to zero have. -/
def leastExponent : Int := -1074

def greatestExponent : Int := 971

def zero : Binary := ⟨false, 0, 0⟩

/-- The numerator and denominator of `numerator / denominator * 2 ^ (-power)`. -/
def scaleDown (numerator denominator : Nat) (power : Int) : Nat × Nat :=
  if 0 ≤ power then (numerator, denominator * Nat.pow 2 power.toNat)
  else (numerator * Nat.pow 2 (-power).toNat, denominator)

/-- The greatest power of two not above a positive quotient. -/
def floorLog (numerator denominator : Nat) : Int :=
  let guess : Int := (Nat.log2 numerator : Int) - (Nat.log2 denominator : Int)
  let (top, bottom) := scaleDown numerator denominator guess
  if top < bottom then guess - 1 else guess

/-- The binary number nearest to a quotient; `none` where it is too large to be finite. -/
def ofRatio? (negative : Bool) (numerator denominator : Nat) : Option Binary :=
  if numerator = 0 || denominator = 0 then some { zero with negative }
  else
    let exponent := max (floorLog numerator denominator - (precision - 1 : Nat)) leastExponent
    let (top, bottom) := scaleDown numerator denominator exponent
    let mantissa := roundDiv top bottom
    let full := mantissa = Nat.pow 2 precision
    let exponent := if full then exponent + 1 else exponent
    let mantissa := if full then Nat.pow 2 (precision - 1) else mantissa
    if greatestExponent < exponent then none else some ⟨negative, mantissa, exponent⟩

/-- The binary number nearest to a decimal; `none` where it is too large to be finite. A decimal
whose size alone decides is not written out. -/
def ofDecimal? (value : Decimal) : Option Binary :=
  let size : Int := (Nat.toDigits 10 value.digits).length + value.exponent
  if value.digits = 0 || size < -330 then some { zero with negative := value.negative }
  else if 310 < size then none
  else if 0 ≤ value.exponent then
    ofRatio? value.negative (value.digits * Nat.pow 10 value.exponent.toNat) 1
  else ofRatio? value.negative value.digits (Nat.pow 10 (-value.exponent).toNat)

def truncate (value : Binary) : Int :=
  let magnitude : Nat :=
    if 0 ≤ value.exponent then value.mantissa * Nat.pow 2 value.exponent.toNat
    else value.mantissa / Nat.pow 2 (-value.exponent).toNat
  if value.negative then -(magnitude : Int) else magnitude

end Binary

end ImportAudit.Number
