import ImportAudit.Number.Binary

/-!
# Numbers read from text

Reading numbers from text: integers of 64 bits in several bases, and decimals.
-/

namespace ImportAudit.Number

/-- Why a text is not an integer of 64 bits. -/
inductive ReadFault
  | malformed
  | outOfRange
  deriving DecidableEq, Repr

def digitValue? (c : Char) : Option Nat :=
  if '0' ≤ c && c ≤ '9' then some (c.toNat - 0x30)
  else if 'a' ≤ c && c ≤ 'z' then some (c.toNat - 0x61 + 10)
  else if 'A' ≤ c && c ≤ 'Z' then some (c.toNat - 0x41 + 10)
  else none

def isDigit (c : Char) : Bool :=
  '0' ≤ c && c ≤ '9'

/-- Reads digits of a base onto a value, up to an exclusive limit; underscores are skipped. The
first character that is no digit and the first digit that passes the limit end the reading. -/
def readDigits (radix limit : Nat) (value : Nat) : List Char → Except ReadFault Nat
  | [] => .ok value
  | '_' :: rest => readDigits radix limit value rest
  | c :: rest =>
    match digitValue? c with
    | none => .error .malformed
    | some digit =>
      if radix ≤ digit then .error .malformed
      else if limit ≤ value * radix + digit then .error .outOfRange
      else readDigits radix limit (value * radix + digit) rest

/-- The base that a text announces and the digits after the announcement: `0b`, `0o` and `0x`
before at least one more character, a plain leading zero for octal. -/
def radixOf (text : List Char) : Nat × List Char :=
  match text with
  | '0' :: mark :: c :: rest =>
    if mark = 'b' || mark = 'B' then (2, c :: rest)
    else if mark = 'o' || mark = 'O' then (8, c :: rest)
    else if mark = 'x' || mark = 'X' then (16, c :: rest)
    else (8, mark :: c :: rest)
  | '0' :: rest => (8, rest)
  | _ => (10, text)

/-- Whether every underscore stands between digits, where `afterDigit` says that a digit or the
announcement of a base stands before the text and `afterBar` that an underscore does. -/
def barsSeparate (hex : Bool) (afterDigit afterBar : Bool) : List Char → Bool
  | [] => !afterBar
  | c :: rest =>
    if isDigit c || (hex && ((digitValue? c).any (· < 16))) then barsSeparate hex true false rest
    else if c = '_' then afterDigit && barsSeparate hex false true rest
    else !afterBar && barsSeparate hex false false rest

def barsAllowed (text : List Char) : Bool :=
  match text with
  | '0' :: mark :: rest =>
    if mark = 'x' || mark = 'X' then barsSeparate true true false rest
    else if mark = 'b' || mark = 'B' || mark = 'o' || mark = 'O' then
      barsSeparate false true false rest
    else barsSeparate false false false text
  | _ => barsSeparate false false false text

/-- Reads an unsigned integer below the limit in the base that it announces. -/
def readNat (limit : Nat) (text : List Char) : Except ReadFault Nat :=
  match text with
  | [] => .error .malformed
  | _ =>
    match readDigits (radixOf text).1 limit 0 (radixOf text).2 with
    | .error fault => .error fault
    | .ok value =>
      if text.contains '_' && !barsAllowed text then .error .malformed else .ok value

def splitSign (text : List Char) : Bool × List Char :=
  match text with
  | '-' :: rest => (true, rest)
  | '+' :: rest => (false, rest)
  | _ => (false, text)

def wordLimit : Nat := 18446744073709551616

/-- The numbers of 64 bits with a sign are below this, and not below its opposite. -/
def halfLimit : Nat := 9223372036854775808

def readInt (text : List Char) : Except ReadFault Int :=
  let (negative, magnitude) := splitSign text
  match readNat wordLimit magnitude with
  | .error fault => .error fault
  | .ok value =>
    if negative then
      if halfLimit < value then .error .outOfRange else .ok (-(value : Int))
    else if halfLimit ≤ value then .error .outOfRange
    else .ok value

def digitsValue (digits : List Char) : Nat :=
  digits.foldl (fun value c => value * 10 + (c.toNat - 0x30)) 0

/-- Reads the exponent part of a decimal, which may be missing. -/
def readExponent? (text : List Char) : Option Int :=
  match text with
  | [] => some 0
  | mark :: rest =>
    if mark = 'e' || mark = 'E' then
      let (negative, digits) := splitSign rest
      if digits.isEmpty || !digits.all isDigit then none
      else some (if negative then -(digitsValue digits : Int) else digitsValue digits)
    else none

/-- Reads a decimal: an optional sign, digits with an optional point, an optional exponent. A
point without digits before it needs digits after it. -/
def readDecimal? (text : List Char) : Option Decimal :=
  let (negative, unsigned) := splitSign text
  let whole := unsigned.takeWhile isDigit
  let (fraction, rest) :=
    match unsigned.dropWhile isDigit with
    | '.' :: tail => (tail.takeWhile isDigit, tail.dropWhile isDigit)
    | tail => ([], tail)
  if whole.isEmpty && fraction.isEmpty then none
  else
    (readExponent? rest).map fun exponent =>
      ⟨negative, digitsValue (whole ++ fraction), exponent - fraction.length⟩

end ImportAudit.Number
