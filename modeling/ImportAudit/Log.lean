import ImportAudit.Fault
import ImportAudit.Json
import ImportAudit.Text.Lowercase
import ImportAudit.Text.Word

/-!
# Log records

Log records and their two line formats. Records below the level of a log are dropped; the time of
a record is the outer layer's business and is not part of its text here.
-/

namespace ImportAudit.Log

inductive Level
  | debug
  | info
  | warn
  | error
  deriving DecidableEq, Repr

namespace Level

def rank : Level → Nat
  | debug => 0
  | info => 1
  | warn => 2
  | error => 3

def label : Level → String
  | debug => "debug"
  | info => "info"
  | warn => "warn"
  | error => "error"

def tag : Level → String
  | debug => "DEBUG"
  | info => "INFO"
  | warn => "WARN"
  | error => "ERROR"

/-- The level with exactly this label; any other label counts as `info`. -/
def ofLabel (text : String) : Level :=
  if text = "debug" then debug
  else if text = "warn" then warn
  else if text = "error" then error
  else info

/-- Reads a level from a setting: surrounding white space and case do not matter, and an empty
value selects `warn`. -/
def parse (value : String) : Except Fault Level :=
  let name := Text.lower (Text.trim value)
  if name = "debug" then .ok debug
  else if name = "info" then .ok info
  else if name = "warn" || name = "" then .ok warn
  else if name = "error" then .ok error
  else .error (.unknownLogLevel value)

end Level

inductive Layout
  | text
  | json
  deriving DecidableEq, Repr

namespace Layout

def label : Layout → String
  | text => "text"
  | json => "json"

/-- The layout with exactly this label; any other label counts as `text`. -/
def ofLabel (name : String) : Layout :=
  if name = "json" then json else text

/-- Reads a layout from a setting: surrounding white space and case do not matter, and an empty
value selects `text`. -/
def parse (value : String) : Except Fault Layout :=
  let name := Text.lower (Text.trim value)
  if name = "json" then .ok json
  else if name = "text" || name = "" then .ok text
  else .error (.unknownLogFormat value)

end Layout

structure Record where
  level : Level
  message : String
  fields : List (String × Json)

def missingName : String := "!BADKEY"

/-- Pairs up a flat list of names and values; a value where a name should stand, and a name at
the end, count as values without a name. -/
def pairUp : List Json → List (String × Json)
  | [] => []
  | .string name :: value :: rest => (name, value) :: pairUp rest
  | value :: rest => (missingName, value) :: pairUp rest

def needsQuotes (c : Char) : Bool :=
  if c.toNat < 0x80 then c.toNat < 0x20 || c = ' ' || c = '=' || c = '"'
  else c = '\uFFFD' || Text.isSpace c || !Text.isPrintable c

/-- A text value, quoted where it is empty or holds a character that needs it. -/
def textWord (text : String) : String :=
  if text = "" || text.toList.any needsQuotes then Text.quoted text else text

mutual

/-- A value as free text: lists in brackets, mappings by name, numbers in their log layout. -/
def freeText : Json → String
  | .null => "<nil>"
  | .bool value => if value then "true" else "false"
  | .integer value => toString value
  | .number value =>
    Number.logText ((Number.Binary.ofDecimal? value).getD Number.Binary.zero)
  | .string value => value
  | .array items => "[" ++ String.intercalate " " (freeItems items) ++ "]"
  | .object fields => "map[" ++ String.intercalate " " (freeFields fields) ++ "]"

def freeItems : List Json → List String
  | [] => []
  | item :: rest => freeText item :: freeItems rest

def freeFields : List (String × Json) → List String
  | [] => []
  | (name, value) :: rest => (name ++ ":" ++ freeText value) :: freeFields rest

end

/-- A value in the text layout; only texts and compound values are ever quoted. -/
def textValue (value : Json) : String :=
  match value with
  | .bool _ | .integer _ | .number _ => freeText value
  | _ => textWord (freeText value)

/-- Whether a field is shown: one without name and value is not. -/
def isShown : String × Json → Bool
  | ("", .null) => false
  | _ => true

def Record.line (layout : Layout) (record : Record) : String :=
  let fields := record.fields.filter isShown
  match layout with
  | .text =>
    "level=" ++ record.level.tag ++ " msg=" ++ textWord record.message ++
      String.join (fields.map fun (name, value) => " " ++ textWord name ++ "=" ++ textValue value)
  | .json =>
    Json.render .plain (.object
      ([("level", .string record.level.tag), ("msg", .string record.message)] ++ fields))

/-- What a log takes and how it writes it. -/
structure Settings where
  level : Level
  layout : Layout
  deriving DecidableEq, Repr

def Settings.default : Settings := ⟨.warn, .text⟩

def Settings.takes (settings : Settings) (record : Record) : Bool :=
  settings.level.rank ≤ record.level.rank

def Settings.lines (settings : Settings) (records : List Record) : List String :=
  (records.filter settings.takes).map (Record.line settings.layout)

end ImportAudit.Log
