import ImportAudit.Json
import ImportAudit.Number.Reading

/-!
# Reading structured data

The text of a value, with white space anywhere between its parts. Reading a string undoes every
way of escaping it; half of a character outside of the basic plane, without its other half, reads
as the replacement character.
-/

namespace ImportAudit.Json

/-! ## White space and strings -/

def isBlank (c : Char) : Bool :=
  c = ' ' || c = '\t' || c = '\n' || c = '\r'

def skipBlanks (text : List Char) : List Char :=
  text.dropWhile isBlank

def namedChar? (c : Char) : Option Char :=
  [('"', '"'), ('\\', '\\'), ('/', '/'), ('b', '\x08'), ('f', '\x0c'), ('n', '\n'),
    ('r', '\r'), ('t', '\t')].lookup c

/-- The value of hexadecimal digits. -/
def hexPoint? (digits : List Char) : Option Nat :=
  digits.foldl (fun value c =>
    match value, (Number.digitValue? c).filter (· < 16) with
    | some value, some digit => some (value * 16 + digit)
    | _, _ => none) (some 0)

def isHighHalf (point : Nat) : Bool := 0xD800 ≤ point && point < 0xDC00

def isLowHalf (point : Nat) : Bool := 0xDC00 ≤ point && point < 0xE000

def joinHalves (high low : Nat) : Char :=
  Char.ofNat (0x10000 + (high - 0xD800) * 0x400 + (low - 0xDC00))

/-- What a first half reads as that nothing completes. -/
def lonelyHalf : Option Nat → List Char
  | none => []
  | some _ => ['\uFFFD']

def prepend (front : List Char) : Option (List Char × List Char) → Option (List Char × List Char)
  | some (content, rest) => some (front ++ content, rest)
  | none => none

/-- Reads a string after its opening quote, up to and with the closing one. A first half that still
waits for the second is passed along. -/
def readString (high : Option Nat) : List Char → Option (List Char × List Char)
  | [] => none
  | '"' :: rest => some (lonelyHalf high, rest)
  | '\\' :: 'u' :: a :: b :: c :: d :: rest =>
    match hexPoint? [a, b, c, d] with
    | none => none
    | some point =>
      if isHighHalf point then prepend (lonelyHalf high) (readString (some point) rest)
      else if isLowHalf point then
        match high with
        | some first => prepend [joinHalves first point] (readString none rest)
        | none => prepend ['\uFFFD'] (readString none rest)
      else prepend (lonelyHalf high ++ [Char.ofNat point]) (readString none rest)
  | '\\' :: c :: rest =>
    match namedChar? c with
    | some named => prepend (lonelyHalf high ++ [named]) (readString none rest)
    | none => none
  | c :: rest =>
    if c = '\\' || c.toNat < 0x20 then none
    else prepend (lonelyHalf high ++ [c]) (readString none rest)

/-! ## Values -/

def isNumberChar (c : Char) : Bool :=
  Number.isDigit c || c = '-' || c = '+' || c = '.' || c = 'e' || c = 'E'

/-- Reads a number, which starts with a digit or a minus sign. -/
def readNumber (text : List Char) : Option (Json × List Char) :=
  (Number.readDecimal? (text.takeWhile isNumberChar)).map fun value =>
    (.number value, text.dropWhile isNumberChar)

def afterWord? (word text : List Char) : Option (List Char) :=
  if word.isPrefixOf text then some (text.drop word.length) else none

mutual

def readValue : Nat → List Char → Option (Json × List Char)
  | 0, _ => none
  | fuel + 1, text =>
    match skipBlanks text with
    | '{' :: rest =>
      match skipBlanks rest with
      | '}' :: rest => some (.object [], rest)
      | rest => (readFields fuel rest).map fun (fields, rest) => (.object fields, rest)
    | '[' :: rest =>
      match skipBlanks rest with
      | ']' :: rest => some (.array [], rest)
      | rest => (readItems fuel rest).map fun (items, rest) => (.array items, rest)
    | '"' :: rest =>
      (readString none rest).map fun (content, rest) => (.string (String.ofList content), rest)
    | 't' :: rest => (afterWord? "rue".toList rest).map fun rest => (.bool true, rest)
    | 'f' :: rest => (afterWord? "alse".toList rest).map fun rest => (.bool false, rest)
    | 'n' :: rest => (afterWord? "ull".toList rest).map fun rest => (.null, rest)
    | c :: rest => if Number.isDigit c || c = '-' then readNumber (c :: rest) else none
    | [] => none

/-- Reads the items of an array, of which there is at least one, up to and with its end. -/
def readItems : Nat → List Char → Option (List Json × List Char)
  | 0, _ => none
  | fuel + 1, text =>
    match readValue fuel text with
    | none => none
    | some (item, rest) =>
      match skipBlanks rest with
      | ',' :: rest => (readItems fuel rest).map fun (items, rest) => (item :: items, rest)
      | ']' :: rest => some ([item], rest)
      | _ => none

/-- Reads the fields of an object, of which there is at least one, up to and with its end. -/
def readFields : Nat → List Char → Option (List (String × Json) × List Char)
  | 0, _ => none
  | fuel + 1, text =>
    match readField fuel text with
    | none => none
    | some (field, rest) =>
      match skipBlanks rest with
      | ',' :: rest => (readFields fuel rest).map fun (fields, rest) => (field :: fields, rest)
      | '}' :: rest => some ([field], rest)
      | _ => none

def readField : Nat → List Char → Option ((String × Json) × List Char)
  | 0, _ => none
  | fuel + 1, text =>
    match skipBlanks text with
    | '"' :: rest =>
      match readString none rest with
      | none => none
      | some (name, rest) =>
        match skipBlanks rest with
        | ':' :: rest =>
          (readValue fuel rest).map fun (value, rest) => ((String.ofList name, value), rest)
        | _ => none
    | _ => none

end

/-- The value that a text stands for. Nothing but white space may follow it. -/
def parse? (text : String) : Option Json :=
  match readValue (3 * text.length + 3) text.toList with
  | some (value, rest) => if (skipBlanks rest).isEmpty then some value else none
  | none => none

end ImportAudit.Json
