import ImportAudit.Scan.Build
import ImportAudit.Usage

/-!
# Auditing a project

A project is a folder with its sources below `src`. An audit indexes the sources, finds the unused
names, and writes the report into the project folder as its last and only change.
-/

namespace ImportAudit.Project

/-- The options of an audit as they are asked for: modes are labels that still have to be read,
and no markers at all ask for the default ones. -/
structure Request where
  parseMode : String
  matchMode : String
  markers : List Marker
  exclude : List String
  workers : Int
  deriving DecidableEq, Repr

def Request.default : Request := ⟨"line", "substring", Marker.defaults, [], 0⟩

structure Options where
  parseMode : ParseMode
  matchMode : MatchMode
  markers : List Marker
  exclude : List String
  workers : Int
  deriving DecidableEq, Repr

/-- Reads the modes of a request, the parse mode first, and fills in the markers. -/
def Request.resolve (request : Request) : Except Fault Options :=
  match ParseMode.parse request.parseMode with
  | .error fault => .error fault
  | .ok parseMode =>
    match MatchMode.parse request.matchMode with
    | .error fault => .error fault
    | .ok matchMode =>
      .ok ⟨parseMode, matchMode,
        if request.markers.isEmpty then Marker.defaults else request.markers,
        request.exclude, request.workers⟩

def sourceFolder (project : String) : String :=
  Path.join [project, "src"]

/-- Checks that a project folder is a directory. -/
def validate (tree : FileTree) (project : String) : Except Fault Unit :=
  match tree.stat project with
  | .error fault => .error (.during .projectFolder fault)
  | .ok node =>
    if node.isDirectory then .ok () else .error (.during .projectFolder (.notDirectory project))

def Options.extraction (options : Options) : Extraction.Settings :=
  ⟨options.parseMode, options.markers, Extraction.Settings.default.extensions⟩

def indexWith (cache : Option Cache.Result) (tree : FileTree) (project : String)
    (options : Options) (cancelled : Bool) : Scan.Outcome Scan.Built :=
  Scan.build cache options.extraction tree (sourceFolder project)
    ⟨options.exclude, options.workers, ""⟩ cancelled

def index (cache : Option Cache.Result) (tree : FileTree) (project : String) (request : Request)
    (cancelled : Bool) : Scan.Outcome Scan.Built :=
  match request.resolve with
  | .error fault => ⟨.error fault, cache, [], tree⟩
  | .ok options => indexWith cache tree project options cancelled

/-- An audit: the index, the counts, and the unused names. -/
structure Audit where
  index : Index
  stats : ScanStats
  findings : Usage.Findings

def findUnused (cache : Option Cache.Result) (tree : FileTree) (project : String)
    (request : Request) (cancelled : Bool) : Scan.Outcome Audit :=
  match request.resolve with
  | .error fault => ⟨.error fault, cache, [], tree⟩
  | .ok options =>
    let scan := indexWith cache tree project options cancelled
    { scan with
      result := scan.result.map fun built =>
        ⟨built.index, built.stats, Usage.findings options.matchMode built.index⟩ }

/-- An audit together with its report: where it was written, and the tree that has it. -/
structure Reported where
  audit : Audit
  path : String
  tree : FileTree

/-- Audits a project and writes the report in the format of the given label. -/
def run (cache : Option Cache.Result) (tree : FileTree) (project : String) (request : Request)
    (format : String) (cancelled : Bool) : Scan.Outcome Reported :=
  let scan := findUnused cache tree project request cancelled
  match scan.result with
  | .error fault => ⟨.error fault, scan.cache, scan.log, scan.tree⟩
  | .ok audit =>
    match Report.write scan.tree project format audit.findings with
    | .error fault => ⟨.error fault, scan.cache, scan.log, scan.tree⟩
    | .ok (path, tree) =>
      ⟨.ok ⟨audit, path, tree⟩, scan.cache,
        scan.log ++ [⟨.info, "Report written", [("path", .string path)]⟩], tree⟩

end ImportAudit.Project
