import ImportAudit.Declaration
import ImportAudit.Fault
import ImportAudit.Import.Scan
import ImportAudit.Text.Lowercase

/-!
# Extraction from one file

What is read from one file: its import specifiers and, where its name has one of the export
extensions, its exported declarations. Nothing is compiled or resolved.
-/

namespace ImportAudit

/-- How import statements are recognised. A label that is not known reads like `line` and is kept
as it is. -/
inductive ParseMode
  | line
  | statement
  | unrecognised (label : String)
  deriving DecidableEq, Repr

namespace ParseMode

def label : ParseMode → String
  | line => "line"
  | statement => "statement"
  | unrecognised text => text

def ofLabel (text : String) : ParseMode :=
  if text = "line" then line
  else if text = "statement" then statement
  else unrecognised text

/-- Reads a mode from a setting: surrounding white space and case do not matter, and an empty
value selects `line`. -/
def parse (value : String) : Except Fault ParseMode :=
  let name := Text.lower (Text.trim value)
  if name = "" || name = "line" then .ok line
  else if name = "statement" then .ok statement
  else .error (.unknownParseMode value)

end ParseMode

/-- The import specifiers of a source text, in source order and with duplicates. -/
def importNames (mode : ParseMode) (source : String) : List String :=
  let found :=
    match mode with
    | .statement => Import.scanStatements source.toList
    | _ => Import.scanLines source.toList
  found.map String.ofList

structure ImportRecord where
  file : String
  names : List String
  deriving DecidableEq, Repr, Inhabited

structure Extraction where
  path : String
  imports : ImportRecord
  declarations : List Declaration
  deriving DecidableEq, Repr, Inhabited

namespace Extraction

/-- The settings that decide what is read from a file. -/
structure Settings where
  parseMode : ParseMode
  markers : List Marker
  extensions : List String
  deriving DecidableEq, Repr

namespace Settings

def default : Settings :=
  ⟨.line, Marker.defaults, [".ts"]⟩

/-- Settings from optional parts; an empty mode and missing lists take their defaults, while a
list that is present but empty stays empty. -/
def ofParts (mode : String) (markers : Option (List Marker)) (extensions : Option (List String)) :
    Settings :=
  { parseMode := if mode = "" then .line else .ofLabel mode
    markers := markers.getD default.markers
    extensions := extensions.getD default.extensions }

/-- A text that identifies the settings which affect extraction: results found under different
fingerprints must not be mixed. -/
def fingerprint (settings : Settings) : String :=
  settings.parseMode.label ++
    String.join (settings.markers.map fun marker => "|" ++ marker.token ++ "=" ++ marker.kind) ++
    "|" ++ String.intercalate "," settings.extensions

/-- Whether declarations are read from a file of this name. -/
def scansDeclarations (settings : Settings) (path : String) : Bool :=
  settings.extensions.any fun extension => Text.endsWith extension.toList path.toList

end Settings

def ofSource (settings : Settings) (path : String) (source : String) : Extraction :=
  { path
    imports := ⟨path, importNames settings.parseMode source⟩
    declarations :=
      if settings.scansDeclarations path then
        Declaration.scan path settings.markers source.toList
      else [] }

/-- Reads the content of a file, which has to be valid UTF-8. -/
def ofContent (settings : Settings) (path : String) (content : ByteArray) :
    Except Fault Extraction :=
  match String.fromUTF8? content with
  | some source => .ok (ofSource settings path source)
  | none => .error (.invalidEncoding path)

end Extraction

end ImportAudit
