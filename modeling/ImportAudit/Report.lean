import ImportAudit.FileTree
import ImportAudit.Json
import ImportAudit.Usage
import ImportAudit.Yaml.Scalar

/-!
# Reports

Reports of the unused names, in three formats, and where a report goes.
-/

namespace ImportAudit.Report

open ImportAudit.Usage (Findings)

inductive Format
  | text
  | json
  | yaml
  deriving DecidableEq, Repr

namespace Format

def label : Format → String
  | text => "text"
  | json => "json"
  | yaml => "yaml"

/-- The format with exactly this label; the empty label selects `text`. -/
def ofLabel (name : String) : Except Fault Format :=
  if name = "" || name = "text" then .ok text
  else if name = "json" then .ok json
  else if name = "yaml" then .ok yaml
  else .error (.unknownFormat name)

/-- Reads a format from a setting: surrounding white space and case do not matter, an empty value
selects `text`, and `yml` is short for `yaml`. -/
def parse (value : String) : Except Fault Format :=
  let name := Text.lower (Text.trim value)
  if name = "" || name = "text" then .ok text
  else if name = "json" then .ok json
  else if name = "yaml" || name = "yml" then .ok yaml
  else .error (.unknownFormat value)

def extension : Format → String
  | text => ".txt"
  | json => ".json"
  | yaml => ".yaml"

end Format

def baseName : String := "unused_intrafaces"

def path (project : String) (format : Format) : String :=
  Path.join [project, baseName ++ format.extension]

/-- The format of a report by its label, where a label that is not known counts as `text`. -/
def formatOrText (label : String) : Format :=
  match Format.ofLabel label with
  | .ok format => format
  | .error _ => .text

def nameLines (names : List String) : String :=
  String.join (names.map (· ++ "\n"))

/-- The plain report: the names under two headings, with a blank line between the sections. -/
def textReport (findings : Findings) : String :=
  "Unused intrafaces:\n" ++ nameLines findings.declarations ++
    "\nUnused components:\n" ++ nameLines findings.components

/-- A list of strings over several lines, indented below its field. -/
def jsonList (names : List String) : String :=
  match names with
  | [] => "[]"
  | _ =>
    "[\n" ++ String.intercalate ",\n" (names.map fun name => "    " ++ Json.quote .safe name) ++
      "\n  ]"

def jsonReport (findings : Findings) : String :=
  "\x7b\n  \"unused_intrafaces\": " ++ jsonList findings.declarations ++
    ",\n  \"unused_components\": " ++ jsonList findings.components ++ "\n\x7d\n"

/-- A field that holds a list of strings, one item a line. -/
def yamlList (field : String) (names : List String) : String :=
  match names with
  | [] => field ++ ": []\n"
  | _ =>
    field ++ ":\n" ++ String.join (names.map fun name =>
      "  - " ++ String.ofList (Yaml.itemText name))

def yamlReport (findings : Findings) : String :=
  yamlList "unused_intrafaces" findings.declarations ++
    yamlList "unused_components" findings.components

/-- What is given to be reported: two lists, either of which may be missing. -/
structure Lists where
  declarations : Option (List String)
  components : Option (List String)

instance : Coe Findings Lists where
  coe findings := ⟨some findings.declarations, some findings.components⟩

/-- The findings that are reported; a list that is missing counts as empty. -/
def Lists.findings (lists : Lists) : Findings :=
  ⟨lists.declarations.getD [], lists.components.getD []⟩

def encode (format : Format) (lists : Lists) : String :=
  let findings := lists.findings
  match format with
  | .text => textReport findings
  | .json => jsonReport findings
  | .yaml => yamlReport findings

/-- Encodes the lists by the label of a format and writes them where the report of the project
goes, in place of an earlier report. The path written and the new tree are returned; a label that
is not known is refused before anything is written. -/
def write (tree : FileTree) (project label : String) (lists : Lists) :
    Except Fault (String × FileTree) :=
  match Format.ofLabel label with
  | .error fault => .error fault
  | .ok format =>
    let target := path project format
    match tree.write target (encode format lists).toUTF8 0 with
    | .error fault => .error (.during .writeReport fault)
    | .ok tree => .ok (target, tree)

end ImportAudit.Report
