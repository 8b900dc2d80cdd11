import ImportAudit.Number.Reading

/-!
# Meaning of plain scalars

What an unquoted YAML scalar reads as. Words for null and the two truth values, integers in any
base, decimals, the infinities, dates and times are not text.
-/

namespace ImportAudit.Yaml

inductive Real
  | finite (value : Number.Binary)
  | infinite (negative : Bool)
  | undefined
  deriving DecidableEq, Repr

inductive Meaning
  | null
  | truth (value : Bool)
  | integer (value : Int)
  | real (value : Real)
  | timestamp
  | text
  deriving DecidableEq, Repr

/-- The words with a fixed meaning. -/
def word? (text : String) : Option Meaning :=
  if ["", "~", "null", "Null", "NULL"].contains text then some .null
  else if ["true", "True", "TRUE"].contains text then some (.truth true)
  else if ["false", "False", "FALSE"].contains text then some (.truth false)
  else if [".nan", ".NaN", ".NAN"].contains text then some (.real .undefined)
  else if [".inf", ".Inf", ".INF", "+.inf", "+.Inf", "+.INF"].contains text then
    some (.real (.infinite false))
  else if ["-.inf", "-.Inf", "-.INF"].contains text then some (.real (.infinite true))
  else none

/-- Reads one or two digits of a value below the limit. -/
def shortNumber? (limit : Nat) (text : List Char) : Option (Nat × List Char) :=
  match text with
  | a :: b :: rest =>
    if !Number.isDigit a then none
    else if Number.isDigit b then
      let value := Number.digitsValue [a, b]
      if value < limit then some (value, rest) else none
    else
      let value := Number.digitsValue [a]
      if value < limit then some (value, b :: rest) else none
  | [a] =>
    if Number.isDigit a && Number.digitsValue [a] < limit then
      some (Number.digitsValue [a], [])
    else none
  | [] => none

def expect? (c : Char) : List Char → Option (List Char)
  | [] => none
  | head :: rest => if head = c then some rest else none

def isLeapYear (year : Nat) : Bool :=
  year % 4 = 0 && (year % 100 ≠ 0 || year % 400 = 0)

def daysIn (year month : Nat) : Nat :=
  if month = 2 then (if isLeapYear year then 29 else 28)
  else if month = 4 || month = 6 || month = 9 || month = 11 then 30
  else 31

/-- Reads a date of a four-digit year, a month and a day, and returns what follows it. -/
def afterDate? (text : List Char) : Option (List Char) := do
  let year := text.takeWhile Number.isDigit
  if year.length ≠ 4 then none
  let rest ← expect? '-' (text.drop 4)
  let (month, rest) ← shortNumber? 13 rest
  let rest ← expect? '-' rest
  let (day, rest) ← shortNumber? 32 rest
  if month = 0 || day = 0 || daysIn (Number.digitsValue year) month < day then none
  some rest

/-- Reads a time of day with an optional fraction of a second, and returns what follows it. -/
def afterTime? (text : List Char) : Option (List Char) := do
  let (_, rest) ← shortNumber? 24 text
  let rest ← expect? ':' rest
  let (_, rest) ← shortNumber? 60 rest
  let rest ← expect? ':' rest
  let (_, rest) ← shortNumber? 60 rest
  match rest with
  | mark :: digit :: tail =>
    if (mark = '.' || mark = ',') && Number.isDigit digit then some (tail.dropWhile Number.isDigit)
    else some rest
  | _ => some rest

/-- Whether a text is a time zone: `Z`, or a sign with hours and minutes. -/
def isZone (text : List Char) : Bool :=
  match text with
  | ['Z'] => true
  | [sign, a, b, ':', c, d] =>
    (sign = '+' || sign = '-') && [a, b, c, d].all Number.isDigit &&
      Number.digitsValue [a, b] ≤ 24 && Number.digitsValue [c, d] < 60
  | _ => false

/-- Whether a text is a date, or a date and a time: after `T` or `t` a zone is needed, after a
space there is none. -/
def isTimestamp (text : List Char) : Bool :=
  match afterDate? text with
  | none => false
  | some [] => true
  | some (mark :: rest) =>
    match afterTime? rest with
    | none => false
    | some zone =>
      if mark = 'T' || mark = 't' then isZone zone else mark = ' ' && zone.isEmpty

/-- Reads an integer whose base is announced by a mark that the general reading refuses: a
sign after the mark. -/
def markedInteger? (radix : Nat) (negative : Bool) (digits : List Char) : Option Int :=
  let (inner, magnitude) := if negative then (false, digits) else Number.splitSign digits
  if magnitude.isEmpty then none
  else
    match Number.readDigits radix Number.wordLimit 0 magnitude with
    | .ok value =>
      if negative || inner then if value ≤ Number.halfLimit then some (-(value : Int)) else none
      else some value
    | .error _ => none

/-- Reads a scalar that starts with a sign or a digit. -/
def numeric (text : String) : Meaning :=
  if isTimestamp text.toList then .timestamp
  else
    let plain := text.toList.filter (· != '_')
    match Number.readInt plain, Number.readNat Number.wordLimit plain with
    | .ok value, _ => .integer value
    | _, .ok value => .integer value
    | _, _ =>
      match (Number.readDecimal? plain).bind Number.Binary.ofDecimal? with
      | some value => .real (.finite value)
      | none =>
        let marked :=
          match plain with
          | '0' :: 'b' :: digits => markedInteger? 2 false digits
          | '-' :: '0' :: 'b' :: digits => markedInteger? 2 true digits
          | '0' :: 'o' :: digits => markedInteger? 8 false digits
          | '-' :: '0' :: 'o' :: digits => markedInteger? 8 true digits
          | _ => none
        match marked with
        | some value => .integer value
        | none => .text

/-- What an unquoted scalar reads as. -/
def meaning (text : String) : Meaning :=
  match text.toList.head? with
  | none => .null
  | some first =>
    if "yYnNtTfFoO~".toList.contains first then (word? text).getD .text
    else if first = '.' then
      (word? text).getD <|
        match (Number.readDecimal? text.toList).bind Number.Binary.ofDecimal? with
        | some value => .real (.finite value)
        | none => .text
    else if first = '+' || first = '-' || Number.isDigit first then
      (word? text).getD (numeric text)
    else .text

end ImportAudit.Yaml
