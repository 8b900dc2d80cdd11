import ImportAudit.Settings

/-!
# Watching a project

A project is scanned once and again after every batch of changes below its sources. What was
removed or renamed is forgotten by the cache before the next scan. A scan that fails is logged,
and watching goes on.
-/

namespace ImportAudit

/-- What a stretch of work printed and logged, and the tree it left. -/
structure Progress where
  output : String
  log : List Log.Record
  tree : FileTree

/-- A project that is being watched: its settings, the cache of its scans, the watcher, and the
directories from which events come. -/
structure Watching where
  project : String
  settings : Settings
  cache : Cache.Result
  watcher : Watcher
  directories : List String

namespace Watching

/-! ## Scans -/

/-- What is printed about a finished scan: a line, and the summary if it is wanted. -/
def announcement (settings : Settings) (reported : Project.Reported) : String :=
  let findings := reported.audit.findings
  reported.path ++ ": " ++ toString findings.declarations.length ++ " unused intrafaces, " ++
    toString findings.components.length ++ " unused components\n" ++
    if settings.summary then Report.summary findings (some reported.audit.stats) else ""

/-- Scans a project once more with the cache of earlier scans. -/
def scanOnce (project : String) (settings : Settings) (cache : Cache.Result) (tree : FileTree)
    (cancelled : Bool) : Except Fault Unit × Cache.Result × Progress :=
  let outcome :=
    Project.run (some cache) tree project settings.request settings.reportFormat cancelled
  let cache := outcome.cache.getD cache
  match outcome.result with
  | .error fault => (.error fault, cache, ⟨"", outcome.log, outcome.tree⟩)
  | .ok reported =>
    (.ok (), cache, ⟨announcement settings reported, outcome.log, outcome.tree⟩)

/-- Starts to watch a project after a first scan, which has to succeed. -/
def start (project : String) (settings : Settings) (tree : FileTree) (cancelled : Bool) :
    Except Fault Watching × Progress :=
  let (result, cache, progress) := scanOnce project settings .default tree cancelled
  match result, Watcher.new settings.watchOptions true with
  | .error fault, _ => (.error fault, progress)
  | .ok (), .error fault => (.error fault, progress)
  | .ok (), .ok watcher =>
    let root := Project.sourceFolder project
    match watcher.start progress.tree root with
    | (.error fault, _) => (.error fault, progress)
    | (.ok directories, watcher) =>
      (.ok ⟨project, settings, cache, watcher, directories⟩,
        { progress with
          log := progress.log ++ [⟨.info, "File watcher started", [("root", .string root)]⟩] })

/-! ## Changes -/

/-- Whether an event of a path comes from a watched directory. -/
def sees (watching : Watching) (path : String) : Bool :=
  watching.directories.contains path || watching.directories.contains (Path.dir path)

/-- The watched directories after an event: new ones are added, and those that went away are not
watched any more. -/
def directoriesAfter (watching : Watching) (tree : FileTree) (path : String) (changes : Changes) :
    List String :=
  if changes.create then
    match tree.linkStat path with
    | .ok node => watching.directories ++ watching.watcher.directoriesAt path node
    | .error _ => watching.directories
  else if changes.takesAway then
    watching.directories.filter fun directory =>
      directory != path && !(path ++ "/").toList.isPrefixOf directory.toList
  else watching.directories

def notice (watching : Watching) (tree : FileTree) (event : Change) : Watching :=
  let (path, changes) := event
  if watching.sees path then
    { watching with
      watcher := watching.watcher.handle tree path changes
      directories := watching.directoriesAfter tree path changes }
  else watching

def forget (watching : Watching) (batch : List Change) : Cache.Result :=
  batch.foldl (fun cache (path, changes) =>
    if changes.takesAway then
      (cache.invalidate (Path.join [Project.sourceFolder watching.project, path])).2
    else cache) watching.cache

/-- The records of a scan that was repeated. One that was cancelled is not worth a word. -/
def failureRecords : Except Fault Unit → List Log.Record
  | .ok () => []
  | .error fault =>
    if fault.cause = .cancelled then []
    else [⟨.error, "Rescan failed", [("error", .string fault.message)]⟩]

def rescan (watching : Watching) (tree : FileTree) (batch : List Change) (cancelled : Bool) :
    Watching × Progress :=
  let (result, cache, progress) :=
    scanOnce watching.project watching.settings (watching.forget batch) tree cancelled
  ({ watching with cache },
    { progress with
      log := ⟨.info, "Changes detected", [("files", .integer batch.length)]⟩ ::
        progress.log ++ failureRecords result })

/-- Gathers the events of one quiet period and repeats the scan if any of them matters. -/
def receive (watching : Watching) (tree : FileTree) (events : List Change) :
    Watching × Option Progress :=
  let noticed := events.foldl (fun watching event => watching.notice tree event) watching
  let (batch, watcher) := noticed.watcher.flush
  let flushed := { noticed with watcher }
  match batch with
  | none => (flushed, none)
  | some batch =>
    let (watching, progress) := flushed.rescan tree batch false
    (watching, some progress)

/-! ## The end -/

def numberValue (value : Number.Binary) : Json :=
  let (digits, exponent) := Number.shortest value
  .number ⟨value.negative, digits, exponent⟩

def farewell (watching : Watching) : List Log.Record :=
  [⟨.info, "Watch stopped",
      [("cached_files", .integer watching.cache.size),
        ("hit_rate", numberValue watching.cache.hitRate)]⟩,
    ⟨.info, "File watcher stopped", []⟩]

end Watching

end ImportAudit
