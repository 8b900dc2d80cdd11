import ImportAudit.Json

/-!
# The tools

The tools of the server, and how each is described to a client: its purpose and its parameters.
-/

namespace ImportAudit.ToolServer

inductive Tool
  | findUnused
  | listImports
  | listExports
  | listComponents
  | getComponent
  deriving DecidableEq, Repr

/-- A parameter of a tool: its name, the type of its values, what it is for, the values it takes
if they are few, and whether it has to be given. -/
structure Parameter where
  name : String
  type : String
  purpose : String
  choices : List String
  isRequired : Bool
  deriving DecidableEq, Repr

namespace Parameter

def project : Parameter :=
  ⟨"project", "string",
    "Project folder; its src/ directory is scanned. Defaults to the server's --project.",
    [], false⟩

def matchMode : Parameter :=
  ⟨"match_mode", "string", "How declared names are compared with import specifiers.",
    ["substring", "exact", "word"], false⟩

def parseMode : Parameter :=
  ⟨"parse_mode", "string", "How import statements are read.", ["line", "statement"], false⟩

def writeReport : Parameter :=
  ⟨"write_report", "boolean", "Also write unused_intrafaces.txt into the project folder.",
    [], false⟩

def keyword : Parameter :=
  ⟨"keyword", "string", "Case-insensitive filter on component name or file path.", [], false⟩

def componentName : Parameter := ⟨"name", "string", "Component name (file stem).", [], true⟩

def describe (parameter : Parameter) : Json :=
  .object ([("type", .string parameter.type), ("description", .string parameter.purpose)] ++
    if parameter.choices.isEmpty then [] else [("enum", Json.strings parameter.choices)])

end Parameter

namespace Tool

def name : Tool → String
  | findUnused => "find_unused"
  | listImports => "list_imports"
  | listExports => "list_exports"
  | listComponents => "list_components"
  | getComponent => "get_component"

/-- All tools, in the order of their names. -/
def all : List Tool := [findUnused, getComponent, listComponents, listExports, listImports]

def ofName? (name : String) : Option Tool :=
  all.find? (·.name == name)

def purpose : Tool → String
  | findUnused =>
    "Lists exported intraface/type declarations and component files that no import in the " ++
      "project references."
  | listImports =>
    "Returns the import specifiers of every scanned file, in discovery order."
  | listExports => "Returns the exported intraface/type declarations found in .ts files."
  | listComponents =>
    "Returns component candidates (.tsx file stems), optionally filtered by keyword."
  | getComponent =>
    "Returns the files declaring a component name and whether any import uses it."

def parameters : Tool → List Parameter
  | findUnused => [.project, .matchMode, .parseMode, .writeReport]
  | listImports => [.project, .parseMode]
  | listExports => [.project]
  | listComponents => [.project, .keyword]
  | getComponent => [.project, .componentName]

def inputShape (tool : Tool) : Json :=
  .object [("type", .string "object"),
    ("properties", .object (tool.parameters.map fun parameter =>
      (parameter.name, parameter.describe))),
    ("required", Json.strings ((tool.parameters.filter (·.isRequired)).map (·.name)))]

/-- The hints about a tool; they promise nothing. -/
def hints : Json :=
  .object [("readOnlyHint", .bool false), ("destructiveHint", .bool true),
    ("idempotentHint", .bool false), ("openWorldHint", .bool true)]

def describe (tool : Tool) : Json :=
  .object [("name", .string tool.name), ("description", .string tool.purpose),
    ("inputSchema", tool.inputShape), ("annotations", hints)]

end Tool

end ImportAudit.ToolServer
