import ImportAudit.CommandLine.Flag
import ImportAudit.Project
import ImportAudit.ToolServer.Tool

/-!
# Answering calls

Every call is answered with a reply; what goes wrong is a reply too. Arguments of an unexpected
type count as not given. Only the search for unused names changes files, and only if asked to
write the report.
-/

namespace ImportAudit.ToolServer

abbrev Arguments := List (String × Json)

/-- What calls fall back on: the project of calls that name none, and the options of scans. -/
structure Config where
  defaultProject : String
  request : Project.Request
  deriving DecidableEq, Repr

structure Reply where
  isError : Bool
  text : String
  deriving DecidableEq, Repr

namespace Reply

def ofValue (value : Json) : Reply := ⟨false, value.render .safe⟩

def ofFault (fault : Fault) : Reply := ⟨true, fault.message⟩

def ofResult : Except Fault Json → Reply
  | .ok value => ofValue value
  | .error fault => ofFault fault

end Reply

namespace Arguments

def text (arguments : Arguments) (name otherwise : String) : String :=
  match arguments.lookup name with
  | some (.string value) => value
  | _ => otherwise

/-- Whether an argument is given as true: a truth value, a number that is not zero, or a word
for it. -/
def isTrue (arguments : Arguments) (name : String) : Bool :=
  match arguments.lookup name with
  | some (.bool value) => value
  | some (.integer value) => value ≠ 0
  | some (.number value) => ((Number.Binary.ofDecimal? value).getD .zero).mantissa ≠ 0
  | some (.string value) => (CommandLine.readTruth? value).getD false
  | _ => false

end Arguments

def projectOf (config : Config) (tree : FileTree) (arguments : Arguments) : Except Fault String :=
  let project := arguments.text "project" config.defaultProject
  if project = "" then .error .projectRequired
  else (Project.validate tree project).map fun _ => project

/-- A mode given by an argument, read to its label, or the one configured. -/
def modeOf (arguments : Arguments) (name configured : String)
    (read : String → Except Fault String) : Except Fault String :=
  let given := arguments.text name ""
  if given = "" then .ok configured else read given

/-- The options of a call's scan: the modes among its arguments come before those configured. The
match mode is read first. -/
def requestOf (config : Config) (arguments : Arguments) : Except Fault Project.Request :=
  match modeOf arguments "match_mode" config.request.matchMode
      fun given => (MatchMode.parse given).map (·.label) with
  | .error fault => .error fault
  | .ok matchMode =>
    match modeOf arguments "parse_mode" config.request.parseMode
        fun given => (ParseMode.parse given).map (·.label) with
    | .error fault => .error fault
    | .ok parseMode => .ok { config.request with matchMode, parseMode }

/-- What answering a call brings: a result, and the cache, the log and the tree afterwards. -/
structure Answer (α : Type) where
  result : Except Fault α
  cache : Option Cache.Result
  log : List Log.Record
  tree : FileTree

def Answer.untouched {α : Type} (cache : Option Cache.Result) (tree : FileTree)
    (result : Except Fault α) : Answer α :=
  ⟨result, cache, [], tree⟩

/-- An answer turned into another by a function of its result. -/
def Answer.follow {α β : Type} (answer : Answer α) (next : α → Except Fault β) : Answer β :=
  ⟨answer.result.bind next, answer.cache, answer.log, answer.tree⟩

def scanFault {α : Type} : Except Fault α → Except Fault α
  | .ok value => .ok value
  | .error fault => .error (.during .toolScan fault)

def withScan {α : Type} (config : Config) (cache : Option Cache.Result) (tree : FileTree)
    (arguments : Arguments) (scan : String → Project.Request → Answer α) :
    Answer (String × α) :=
  match projectOf config tree arguments with
  | .error fault => .untouched cache tree (.error fault)
  | .ok project =>
    match requestOf config arguments with
    | .error fault => .untouched cache tree (.error fault)
    | .ok request =>
      let answer := scan project request
      { answer with result := (scanFault answer.result).map fun value => (project, value) }

def indexOf (config : Config) (cache : Option Cache.Result) (tree : FileTree)
    (arguments : Arguments) : Answer Index :=
  (withScan config cache tree arguments fun project request =>
    let outcome := Project.index cache tree project request false
    ⟨outcome.result.map (·.index), outcome.cache, outcome.log, outcome.tree⟩).follow
      fun (_, index) => .ok index

/-! ## Responses -/

def unusedResponse (project : String) (audit : Project.Audit) (path : String) : Json :=
  .object ([("project", .string project),
    ("unused_intrafaces", Json.strings audit.findings.declarations),
    ("unused_components", Json.strings audit.findings.components),
    ("files_scanned", .integer audit.stats.filesIndexed)] ++
    if path = "" then [] else [("report_path", .string path)])

/-- The response for the imports of one file; without imports there is no list. -/
def importsResponse (record : ImportRecord) : Json :=
  .object [("file", .string record.file),
    ("names", if record.names.isEmpty then .null else Json.strings record.names)]

def declarationResponse (declared : Declaration) : Json :=
  .object [("file", .string declared.file), ("name", .string declared.name),
    ("kind", .string declared.kind), ("line", .integer declared.line)]

def componentResponse (component : Component) : Json :=
  .object [("file", .string component.file), ("name", .string component.name)]

def catalogOf (index : Index) : Catalog :=
  ⟨Component.defaultExtension, index.components⟩

def namedResponse (config : Config) (index : Index) (name : String) : Except Fault Json :=
  let catalog := catalogOf index
  if (catalog.named name).isEmpty then .error (.unknownComponent name)
  else
    (MatchMode.ofLabel config.request.matchMode).map fun mode =>
      .object [("name", .string name), ("files", Json.strings (catalog.filesNamed name)),
        ("used", .bool (Usage.unused mode index.surface [name]).isEmpty)]

/-! ## Tools -/

def findUnused (config : Config) (cache : Option Cache.Result) (tree : FileTree)
    (arguments : Arguments) : Answer Json :=
  (withScan config cache tree arguments fun project request =>
    if arguments.isTrue "write_report" then
      let outcome := Project.run cache tree project request "text" false
      ⟨outcome.result.map fun reported => (reported.audit, reported.path), outcome.cache,
        outcome.log, outcome.tree⟩
    else
      let outcome := Project.findUnused cache tree project request false
      ⟨outcome.result.map fun audit => (audit, ""), outcome.cache, outcome.log,
        outcome.tree⟩).follow
        fun (project, audit, path) => .ok (unusedResponse project audit path)

def getComponent (config : Config) (cache : Option Cache.Result) (tree : FileTree)
    (arguments : Arguments) : Answer Json :=
  let name := arguments.text "name" ""
  if name = "" then .untouched cache tree (.error .nameRequired)
  else (indexOf config cache tree arguments).follow fun index => namedResponse config index name

def answer (config : Config) (cache : Option Cache.Result) (tree : FileTree) (tool : Tool)
    (arguments : Arguments) : Answer Json :=
  match tool with
  | .findUnused => findUnused config cache tree arguments
  | .getComponent => getComponent config cache tree arguments
  | .listImports =>
    (indexOf config cache tree arguments).follow fun index =>
      .ok (.array (index.importsInOrder.map importsResponse))
  | .listExports =>
    (indexOf config cache tree arguments).follow fun index =>
      .ok (.array (index.declarationsInOrder.map declarationResponse))
  | .listComponents =>
    (indexOf config cache tree arguments).follow fun index =>
      .ok (.array (((catalogOf index).search (arguments.text "keyword" "")).map
        componentResponse))

end ImportAudit.ToolServer
