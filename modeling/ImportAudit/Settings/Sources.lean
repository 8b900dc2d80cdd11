import ImportAudit.Settings
import ImportAudit.Settings.Conversion

/-!
# Where settings come from

A setting is taken from the flag that was given, else from a variable of the environment that is
not empty, else from the settings file, else it has its default. Null in the file sets nothing.
-/

namespace ImportAudit.Settings

/-- The name of a setting, inside a section or outside of all. -/
structure Key where
  group : Option String
  name : String
  deriving DecidableEq, Repr

namespace Key

def top (name : String) : Key := ⟨none, name⟩

def log (name : String) : Key := ⟨some "log", name⟩

def watch (name : String) : Key := ⟨some "watch", name⟩

def serve (name : String) : Key := ⟨some "serve", name⟩

def groups : List String := ["log", "watch", "serve"]

/-- The setting that a flag sets; the flags for the settings file and for help set none. -/
def ofFlag? (flag : String) : Option Key :=
  [("match-mode", top "match_mode"), ("parse-mode", top "parse_mode"), ("format", top "format"),
    ("summary", top "summary"), ("exclude", top "exclude"), ("workers", top "workers"),
    ("log-level", log "level"), ("log-format", log "format"), ("debounce", watch "debounce_ms"),
    ("log-file", serve "log_file"), ("project", serve "project")].lookup flag

end Key

def variableName (name : String) : String :=
  "IMPORTI_" ++ name.map Char.toUpper

def Key.variable (key : Key) : String :=
  match key.group with
  | some group => variableName (group ++ "_" ++ key.name)
  | none => variableName key.name

def Key.all : List Key :=
  [.top "match_mode", .top "parse_mode", .top "format", .top "summary", .top "exclude",
    .top "export_markers", .top "workers", .log "level", .log "format", .watch "debounce_ms",
    .watch "ignore", .serve "log_file", .serve "project"]

/-- The variables that matter: one for each setting and one for each section. -/
def variableNames : List String :=
  Key.all.map Key.variable ++ Key.groups.map variableName

/-- The value of a flag as a value of a setting. A single empty pattern is none at all. -/
def ofFlagValue : CommandLine.FlagValue → Yaml.Value
  | .text value => .text value
  | .truth value => .truth value
  | .integer value => .integer value
  | .list [""] => .list []
  | .list values => .list (values.map .text)

/-- The sources of settings: the flags that were given, the environment, and the fields of the
settings file. -/
structure Sources where
  flags : List (Key × Yaml.Value)
  environment : List (String × String)
  file : List (String × Yaml.Value)

namespace Sources

def flagsOf (given : CommandLine.Given) : List (Key × Yaml.Value) :=
  given.flags.filterMap fun (name, value) =>
    (Key.ofFlag? name).map fun key => (key, ofFlagValue value)

def fromEnvironment? (sources : Sources) (name : String) : Option Yaml.Value :=
  match sources.environment.lookup name with
  | some value => if value = "" then none else some (.text value)
  | none => none

/-- A field that is present and not null. -/
def field? (fields : List (String × Yaml.Value)) (name : String) : Option Yaml.Value :=
  match fields.lookup name with
  | some .null => none
  | found => found

def groupFields (sources : Sources) (group : String) : List (String × Yaml.Value) :=
  match sources.file.lookup group with
  | some (.mapping fields) => fields
  | _ => []

/-- Whether a section stands in the file without any content. Then it has its defaults, whatever
the environment says. -/
def isNullGroup (sources : Sources) (group : String) : Bool :=
  match sources.file.lookup group with
  | some .null => true
  | _ => false

/-- What the file says about a setting. The name of a setting inside a section can also be written
with the section before a dot. -/
def inFile? (sources : Sources) (key : Key) : Option Yaml.Value :=
  match key.group with
  | none => field? sources.file key.name
  | some group =>
    match field? sources.file (group ++ "." ++ key.name) with
    | some value => some value
    | none => field? (sources.groupFields group) key.name

/-- The value of a setting below the flags. A variable of a whole section hides the file and the
defaults of that section, which leaves its settings empty. -/
def belowFlags (sources : Sources) (key : Key) (default : Yaml.Value) : Yaml.Value :=
  match key.group with
  | none => ((sources.fromEnvironment? key.variable).or (sources.inFile? key)).getD default
  | some group =>
    if sources.isNullGroup group then default
    else
      match sources.fromEnvironment? key.variable with
      | some value => value
      | none =>
        if (sources.fromEnvironment? (variableName group)).isSome then .null
        else (sources.inFile? key).getD default

def value (sources : Sources) (key : Key) (default : Yaml.Value) : Yaml.Value :=
  match sources.flags.lookup key with
  | some value => value
  | none => sources.belowFlags key default

/-- Whether a section of the file is one: a mapping, or null where no variable stands in for
it. -/
def groupFits (sources : Sources) (group : String) : Bool :=
  match sources.file.lookup group with
  | none => true
  | some (.mapping _) => true
  | some .null => (sources.fromEnvironment? (variableName group)).isNone
  | some _ => false

/-- Puts the settings together; one that does not convert refuses them all. -/
def settings? (sources : Sources) : Option Settings := do
  if !Key.groups.all sources.groupFits then none
  let standard := Settings.default
  let textAt := fun key default => textOf? (sources.value key (.text default))
  let textsAt := fun key => textsOf? (sources.value key (.list []))
  let matchMode ← textAt (.top "match_mode") standard.matchMode
  let parseMode ← textAt (.top "parse_mode") standard.parseMode
  let format ← textAt (.top "format") standard.format
  let summary ← truthOf? (sources.value (.top "summary") (.truth standard.summary))
  let exclude ← textsAt (.top "exclude")
  let markers ← markersOf? (sources.value (.top "export_markers") (.list []))
  let workers ← integerOf? (sources.value (.top "workers") (.integer standard.workers))
  let level ← textAt (.log "level") standard.log.level
  let layout ← textAt (.log "format") standard.log.format
  let debounce ← integerOf?
    (sources.value (.watch "debounce_ms") (.integer standard.watch.debounceMilliseconds))
  let ignore ← textsAt (.watch "ignore")
  let logFile ← textAt (.serve "log_file") standard.serve.logFile
  let project ← textAt (.serve "project") standard.serve.project
  some ⟨matchMode, parseMode, format, summary, exclude, markers, workers, ⟨level, layout⟩,
    ⟨debounce, ignore⟩, ⟨logFile, project⟩⟩

end Sources

/-! ## The settings file -/

def fileName : String := ".importi"

/-- The extensions under which the settings file is looked for; all of them hold the same
format. -/
def fileExtensions : List String :=
  [".json", ".toml", ".yaml", ".yml", ".properties", ".props", ".prop", ".hcl", ".tfvars",
    ".dotenv", ".env", ".ini", ""]

def searchDirectory (project : String) : String :=
  if project = "" then "." else Path.clean project

def fileContent? (tree : FileTree) (path : String) : Option ByteArray :=
  match tree.stat path with
  | .ok (.file content _) => some content
  | _ => none

/-- The content of the settings file: of the named one, or of the first that the directory has; a
directory need not have one. -/
def fileContent (tree : FileTree) (directory path : String) : Except Fault ByteArray :=
  if path = "" then
    .ok ((fileExtensions.findSome? fun extension =>
      fileContent? tree (Path.join [directory, fileName ++ extension])).getD .empty)
  else tree.read path

def fileFields (tree : FileTree) (directory path : String) :
    Except Fault (List (String × Yaml.Value)) :=
  match fileContent tree directory path with
  | .error fault => .error (.during .readConfig fault)
  | .ok content =>
    match Yaml.settingsOf? content with
    | some fields => .ok fields
    | none => .error (.during .readConfig .configSyntax)

def load (tree : FileTree) (environment : List (String × String))
    (given : CommandLine.Given) (directory path : String) : Except Fault Settings :=
  match fileFields tree directory path with
  | .error fault => .error fault
  | .ok file =>
    match Sources.settings? ⟨Sources.flagsOf given, environment, file⟩ with
    | none => .error (.during .unmarshalConfig .configShape)
    | some settings =>
      match settings.validate with
      | .error fault => .error (.during .validateConfig fault)
      | .ok () => .ok settings

end ImportAudit.Settings
