import ImportAudit.Number.Shortest
import ImportAudit.Text.Quoted

/-!
# Structured data

Structured data and its text. Strings are escaped so that the text is also safe inside a web
page, or only as far as the format needs; the line and paragraph separators are always escaped.
-/

namespace ImportAudit

/-- A structured value. An `integer` is written exactly; a `number` is rounded to binary floating
point first. The fields of an object keep the order in which they are listed. -/
inductive Json
  | null
  | bool (value : Bool)
  | integer (value : Int)
  | number (value : Number.Decimal)
  | string (value : String)
  | array (items : List Json)
  | object (fields : List (String × Json))
  deriving Inhabited

namespace Json

/-- How far strings are escaped beyond what the format needs. -/
structure Escaping where
  /-- Write `<`, `>` and `&` by their code points. -/
  markup : Bool
  /-- Write backspace and form feed by their letters. -/
  letters : Bool

def Escaping.safe : Escaping := ⟨true, true⟩

def Escaping.plain : Escaping := ⟨false, false⟩

def escapePoint (c : Char) : List Char :=
  ['\\', 'u'] ++ Text.hexDigits 4 c.toNat

def escapeChar (escaping : Escaping) (c : Char) : List Char :=
  if c = '"' || c = '\\' then ['\\', c]
  else if c = '\n' then ['\\', 'n']
  else if c = '\r' then ['\\', 'r']
  else if c = '\t' then ['\\', 't']
  else if escaping.letters && c = '\x08' then ['\\', 'b']
  else if escaping.letters && c = '\x0c' then ['\\', 'f']
  else if c.toNat < 0x20 then escapePoint c
  else if escaping.markup && (c = '<' || c = '>' || c = '&') then escapePoint c
  else if c = '\u2028' || c = '\u2029' then escapePoint c
  else [c]

def quote (escaping : Escaping) (text : String) : String :=
  String.ofList ('"' :: text.toList.flatMap (escapeChar escaping) ++ ['"'])

/-- The text of a number; one too large for binary floating point is written as zero. -/
def numberText (value : Number.Decimal) : String :=
  Number.dataText ((Number.Binary.ofDecimal? value).getD Number.Binary.zero)

mutual

def render (escaping : Escaping) : Json → String
  | null => "null"
  | bool value => if value then "true" else "false"
  | integer value => toString value
  | number value => numberText value
  | string value => quote escaping value
  | array items => "[" ++ String.intercalate "," (renderItems escaping items) ++ "]"
  | object fields =>
    "\x7b" ++ String.intercalate "," (renderFields escaping fields) ++ "\x7d"

def renderItems (escaping : Escaping) : List Json → List String
  | [] => []
  | item :: rest => render escaping item :: renderItems escaping rest

def renderFields (escaping : Escaping) : List (String × Json) → List String
  | [] => []
  | (name, value) :: rest =>
    (quote escaping name ++ ":" ++ render escaping value) :: renderFields escaping rest

end

/-- Puts a field into a list of fields that is ordered by name, in place of a field of the same
name. -/
def insertField (name : String) (value : Json) : List (String × Json) → List (String × Json)
  | [] => [(name, value)]
  | (other, kept) :: rest =>
    if name = other then (name, value) :: rest
    else if name < other then (name, value) :: (other, kept) :: rest
    else (other, kept) :: insertField name value rest

/-- Fields ordered by name; of two fields of one name the later wins. -/
def orderFields (fields : List (String × Json)) : List (String × Json) :=
  fields.foldl (fun ordered (name, value) => insertField name value ordered) []

mutual

def ordered : Json → Json
  | array items => array (orderedItems items)
  | object fields => object (orderFields (orderedFields fields))
  | value => value

def orderedItems : List Json → List Json
  | [] => []
  | item :: rest => ordered item :: orderedItems rest

def orderedFields : List (String × Json) → List (String × Json)
  | [] => []
  | (name, value) :: rest => (name, ordered value) :: orderedFields rest

end

def strings (values : List String) : Json :=
  array (values.map string)

end Json

end ImportAudit
