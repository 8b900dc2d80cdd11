import ImportAudit.Discovery

/-!
# Watching a source tree

File events are filtered, gathered by path, and handed on in batches once things are quiet. Of
several events for one path in a batch the last one counts. Stopping drops what is gathered, and
after that no batch is handed on.
-/

namespace ImportAudit

/-- The kinds of change that a file event can carry, several at once. -/
structure Changes where
  create : Bool
  remove : Bool
  write : Bool
  rename : Bool
  chmod : Bool
  deriving DecidableEq, Repr

namespace Changes

def none : Changes := ⟨false, false, false, false, false⟩

def onlyChmod : Changes := { none with chmod := true }

def text (changes : Changes) : String :=
  let named := [(changes.create, "CREATE"), (changes.remove, "REMOVE"), (changes.write, "WRITE"),
    (changes.rename, "RENAME"), (changes.chmod, "CHMOD")]
  match named.filterMap fun (set, name) => if set then some name else Option.none with
  | [] => "[no events]"
  | names => String.intercalate "|" names

/-- Whether a path has ceased to be what it was. -/
def takesAway (changes : Changes) : Bool :=
  changes.remove || changes.rename

end Changes

/-- What a watcher ignores, which files it cares for, and how long it waits for quiet. -/
structure WatchOptions where
  debounceMilliseconds : Int
  ignore : List String
  extensions : List String
  deriving DecidableEq, Repr

namespace WatchOptions

def defaultDebounce : Int := 200

/-- The paths ignored unless asked otherwise: what editors leave behind, and foreign trees. -/
def defaultIgnore : List String :=
  ["**/*.swp", "**/*.tmp", "**/*~", "node_modules/**", ".git/**"]

def default : WatchOptions := ⟨defaultDebounce, defaultIgnore, Discovery.sourceExtensions⟩

/-- The options with defaults for a delay that is not positive and for missing extensions. -/
def filled (options : WatchOptions) : WatchOptions :=
  { options with
    debounceMilliseconds :=
      if options.debounceMilliseconds ≤ 0 then defaultDebounce else options.debounceMilliseconds
    extensions :=
      if options.extensions.isEmpty then Discovery.sourceExtensions else options.extensions }

end WatchOptions

abbrev Change := String × Changes

namespace Change

/-- What became of a path that a tree still has. -/
def ofListed (before : List (String × Option ByteArray)) (path : String)
    (content : Option ByteArray) : Option Change :=
  match before.lookup path with
  | none => some (path, { Changes.none with create := true })
  | some earlier =>
    if earlier.map (·.toList) = content.map (·.toList) then none
    else some (path, { Changes.none with write := true })

/-- The changes that lead from one tree to another: first what came or was written, then what
went. -/
def between (earlier later : FileTree) : List Change :=
  let before := earlier.listing
  let after := later.listing
  after.filterMap (fun (path, content) => ofListed before path content) ++
    before.filterMap fun (path, _) =>
      if (after.lookup path).isSome then none
      else some (path, { Changes.none with remove := true })

end Change

/-- A watcher: its options, the root it was given, whether it runs, the changes gathered in the
order of their paths, and whether the delay is running. -/
structure Watcher where
  options : WatchOptions
  root : String
  started : Bool
  stopped : Bool
  pending : List Change
  armed : Bool
  deriving DecidableEq, Repr

namespace Watcher

/-- A watcher that has not started. It needs someone to hand batches to, and well-formed ignore
patterns. -/
def new (options : WatchOptions) (hasHandler : Bool) : Except Fault Watcher :=
  if !hasHandler then .error .handlerMissing
  else
    match Discovery.badPattern? options.ignore with
    | some pattern => .error (.invalidIgnorePattern pattern)
    | none => .ok ⟨options.filled, "", false, false, [], false⟩

/-- A path relative to the root, or the path itself where that is not possible. -/
def relative (watcher : Watcher) (path : String) : String :=
  if watcher.root = "" then path else (Path.relative? watcher.root path).getD path

/-- Whether an ignore pattern matches a path, taken relative to the root or by its last
element. -/
def ignores (watcher : Watcher) (path : String) : Bool :=
  watcher.options.ignore.any fun pattern =>
    Glob.matchesPath pattern (watcher.relative path) || Glob.matchesPath pattern (Path.base path)

mutual

/-- The directories at and below a node that are not ignored; below an ignored one none is
looked for. -/
def directoriesAt (watcher : Watcher) (path : String) : Node → List String
  | .directory entries =>
    if watcher.ignores path then [] else path :: directoriesAmong watcher path entries
  | _ => []

def directoriesAmong (watcher : Watcher) (path : String) : List (String × Node) → List String
  | [] => []
  | (name, node) :: rest =>
    directoriesAt watcher (Path.join [path, name]) node ++ directoriesAmong watcher path rest

end

/-- The directories that a started watcher watches; the root is watched even if ignored. -/
def watched (watcher : Watcher) (tree : FileTree) : Except Fault (List String) :=
  match tree.linkStat watcher.root with
  | .error fault => .error (.during (.watchPath watcher.root) fault)
  | .ok (.directory entries) =>
    .ok (Path.clean watcher.root :: watcher.directoriesAmong watcher.root entries)
  | .ok _ => .ok []

/-- Starts watching a root, once. The root is remembered even if it cannot be watched. -/
def start (watcher : Watcher) (tree : FileTree) (root : String) :
    Except Fault (List String) × Watcher :=
  if watcher.stopped then (.error .watcherStopped, watcher)
  else if watcher.started then (.error .watcherStarted, watcher)
  else
    let rooted := { watcher with root }
    match rooted.watched tree with
    | .error fault => (.error fault, rooted)
    | .ok directories => (.ok directories, { rooted with started := true })

def stop (watcher : Watcher) : Watcher :=
  if watcher.stopped then watcher
  else { watcher with stopped := true, pending := [], armed := false }

/-- Puts a change into ordered changes, in place of an earlier one of the same path. -/
def insertChange (path : String) (changes : Changes) : List Change → List Change
  | [] => [(path, changes)]
  | (other, kept) :: rest =>
    if path = other then (path, changes) :: rest
    else if path < other then (path, changes) :: (other, kept) :: rest
    else (other, kept) :: insertChange path changes rest

/-- Gathers a change and restarts the delay. -/
def queue (watcher : Watcher) (path : String) (changes : Changes) : Watcher :=
  { watcher with
    pending := insertChange (watcher.relative path) changes watcher.pending
    armed := true }

/-- Whether an event matters: one for a new directory, or one for a source file that is more than
a change of permissions, or the disappearance of something that looks like a directory. -/
def concerns (watcher : Watcher) (tree : FileTree) (path : String) (changes : Changes) : Bool :=
  if changes.create && tree.isDirectory path then true
  else if Discovery.hasExtension watcher.options.extensions path then
    changes ≠ Changes.onlyChmod
  else changes.takesAway && Path.extension path = ""

def handle (watcher : Watcher) (tree : FileTree) (path : String) (changes : Changes) : Watcher :=
  if watcher.ignores path then watcher
  else if watcher.concerns tree path changes then watcher.queue path changes
  else watcher

/-- The delay runs out. -/
def fire (watcher : Watcher) : Watcher :=
  { watcher with armed := false }

/-- Takes what is gathered. A delay that was restarted meanwhile goes on. -/
def take (watcher : Watcher) : List Change × Watcher :=
  (watcher.pending, { watcher with pending := [] })

/-- What is handed on of a batch that was taken: nothing if it is empty, and nothing once the
watcher is stopped. -/
def handOn? (watcher : Watcher) (batch : List Change) : Option (List Change) :=
  if batch.isEmpty || watcher.stopped then none else some batch

/-- Everything that happens when the delay runs out and nobody interferes. -/
def flush (watcher : Watcher) : Option (List Change) × Watcher :=
  let (batch, emptied) := watcher.fire.take
  (emptied.handOn? batch, emptied)

def running (watcher : Watcher) : Bool :=
  watcher.started && !watcher.stopped

end Watcher

end ImportAudit
