import ImportAudit.Discovery
import ImportAudit.Index
import ImportAudit.Report.Summary
import ImportAudit.Scan.Pool

/-!
# Building the index of a project

A scan discovers the files below a root, does one job for each in discovery order, and assembles
the index from the results. If jobs fail, the scan fails with the fault of the first file in
discovery order, after all jobs were done.
-/

namespace ImportAudit.Scan

/-- What a scan skips, how many workers it asks for, and the extension of component files. -/
structure Options where
  exclude : List String
  workers : Int
  componentExtension : String
  deriving DecidableEq, Repr

def Options.default : Options := ⟨[], 0, Component.defaultExtension⟩

/-- What an activity brings, the result cache afterwards, what was logged, and the files that it
leaves. -/
structure Outcome (α : Type) where
  result : Except Fault α
  cache : Option Cache.Result
  log : List Log.Record
  tree : FileTree

/-- A finished scan: the index, the counts, and the file behind each progress report. -/
structure Built where
  index : Index
  stats : ScanStats
  progress : List String

def jobOf (root : String) (file : String) (id : Nat) : Job :=
  ⟨file, Path.join [root, file], id⟩

/-- Does jobs one after the other: their messages, the store afterwards, and what was logged. -/
def runJobs (store : Store) : List Job → List Message × Store × List Log.Record
  | [] => ([], store, [])
  | job :: rest =>
    let done := job.run store
    let (messages, store, log) := runJobs done.store rest
    (done.message :: messages, store, done.log ++ log)

/-- The results of messages in order, or the fault of the first that has one. -/
def resultsOf : List Message → Except Fault (List (String × Extraction × Bool))
  | [] => .ok []
  | message :: rest =>
    match message.outcome with
    | .error fault => .error (.during (.indexing message.job.file) fault)
    | .ok found =>
      match resultsOf rest with
      | .error fault => .error fault
      | .ok others => .ok ((message.job.file, found) :: others)

def failureLog (messages : List Message) : List Log.Record :=
  messages.filterMap fun message =>
    match message.outcome with
    | .ok _ => none
    | .error fault =>
      some ⟨.warn, "File processing failed",
        [("file", .string message.job.file), ("error", .string fault.message)]⟩

def assemble (root : String) (componentExtension : String) (files : List String)
    (results : List (String × Extraction × Bool)) : Index :=
  { root
    files
    imports := results.map fun (file, result, _) => (file, result.imports)
    declarations := results.filterMap fun (file, result, _) =>
      if result.declarations.isEmpty then none else some (file, result.declarations)
    components := (Catalog.ofFiles files componentExtension).components }

def total (counts : List Nat) : Nat :=
  counts.foldr (· + ·) 0

/-- The counts of a successful scan. Time stands still inside it: the clock is the caller's. -/
def statsOf (requestedWorkers : Int) (files : List String)
    (results : List (String × Extraction × Bool)) (index : Index) : ScanStats :=
  { filesDiscovered := files.length
    filesIndexed := results.length
    filesFailed := 0
    cacheHits := (results.filter fun (_, _, cached) => cached).length
    importsExtracted := total (results.map fun (_, result, _) => result.imports.names.length)
    declarationsExtracted := total (results.map fun (_, result, _) => result.declarations.length)
    componentsFound := index.components.length
    workerCount := min (workersFor requestedWorkers) files.length
    totalMilliseconds := 0 }

def startRecord (root : String) : Log.Record :=
  ⟨.info, "Starting project scan", [("root", .string root)]⟩

def completeRecord (stats : ScanStats) : Log.Record :=
  ⟨.info, "Project scan complete",
    [("files_indexed", .integer stats.filesIndexed), ("cache_hits", .integer stats.cacheHits),
      ("imports", .integer stats.importsExtracted),
      ("exports", .integer stats.declarationsExtracted),
      ("components", .integer stats.componentsFound),
      ("duration_ms", .integer stats.totalMilliseconds)]⟩

/-- Scans the files below a root. A scan that was cancelled beforehand fails as soon as there is
a file to read. -/
def build (cache : Option Cache.Result) (settings : Extraction.Settings) (tree : FileTree)
    (root : String) (options : Options) (cancelled : Bool) : Outcome Built :=
  match Discovery.files tree root ⟨Discovery.sourceExtensions, options.exclude⟩ with
  | .error fault => ⟨.error (.during .discovery fault), cache, [startRecord root], tree⟩
  | .ok files =>
    if cancelled && !files.isEmpty then
      ⟨.error (.during .scan .cancelled), cache, [startRecord root], tree⟩
    else
      let jobs := files.zipIdx.map fun (file, id) => jobOf root file id
      let store : Store := ⟨settings, tree, .unbounded, cache⟩
      let (messages, store, log) := runJobs store jobs
      let log := startRecord root :: log ++ failureLog messages
      match resultsOf messages with
      | .error fault => ⟨.error fault, store.results, log, store.tree⟩
      | .ok results =>
        let index := assemble root options.componentExtension files results
        let stats := statsOf options.workers files results index
        ⟨.ok ⟨index, stats, files⟩, store.results, log ++ [completeRecord stats], store.tree⟩

end ImportAudit.Scan
