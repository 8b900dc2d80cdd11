import ImportAudit.Cache.Content
import ImportAudit.Cache.Result

/-!
# Scan jobs

One job reads one file. With a result cache the file is looked at first, and a result that is
still valid is served as it was found, under the name it was first read by; otherwise the content
is read, extracted and put into the cache.
-/

namespace ImportAudit.Scan

/-- One file to read: its path in the project, the path it is opened by, and its number. -/
structure Job where
  file : String
  path : String
  id : Int
  deriving DecidableEq, Repr

/-- What jobs share: the settings of the extraction, the files, and the two caches. -/
structure Store where
  settings : Extraction.Settings
  tree : FileTree
  contents : Cache.Content
  results : Option Cache.Result

/-- What a job brings: a result and whether it came from the cache, or a fault. -/
structure Message where
  job : Job
  outcome : Except Fault (Extraction × Bool)

/-- A job done: its message, the store afterwards, and what was logged. -/
structure Done where
  message : Message
  store : Store
  log : List Log.Record

/-- What a file looks like from outside: its size and its modification time. -/
structure Stamp where
  size : Int
  modified : Int
  deriving DecidableEq, Repr

/-- What looking for an earlier result brings: the outcome of the job, or that the file has to be
read and the stamp under which its result is to be kept. -/
inductive Look
  | settled (outcome : Except Fault (Extraction × Bool))
  | unread (stamp : Option Stamp)

/-- Looks for an earlier result that is still valid. Without a result cache the file is not even
looked at. -/
def Job.look (job : Job) (store : Store) : Look × Store :=
  match store.results with
  | none => (.unread none, store)
  | some cache =>
    match store.tree.stat job.path with
    | .error fault => (.settled (.error (.during .statFile fault)), store)
    | .ok node =>
      match cache.get store.settings.fingerprint job.path node.size node.modified with
      | (some result, cache) =>
        (.settled (.ok (result, true)), { store with results := some cache })
      | (none, cache) =>
        (.unread (some ⟨node.size, node.modified⟩), { store with results := some cache })

def Job.extract (job : Job) (store : Store) :
    Except Fault Extraction × Store × List Log.Record :=
  let reading := store.contents.read store.tree job.path
  let outcome :=
    match reading.outcome with
    | .error fault => .error (.during .readFile fault)
    | .ok content =>
      match Extraction.ofContent store.settings job.file content with
      | .error fault => .error (.during .extraction fault)
      | .ok result => .ok result
  (outcome, { store with contents := reading.cache }, reading.log)

/-- Keeps a fresh result under its stamp, where there is a result cache. -/
def Job.keep (job : Job) (stamp : Option Stamp) (result : Extraction) (store : Store) : Store :=
  match stamp, store.results with
  | some stamp, some cache =>
    { store with
      results := some
        (cache.put store.settings.fingerprint job.path stamp.size stamp.modified result) }
  | _, _ => store

def Job.run (job : Job) (store : Store) : Done :=
  match job.look store with
  | (.settled outcome, store) => ⟨⟨job, outcome⟩, store, []⟩
  | (.unread stamp, store) =>
    match job.extract store with
    | (.error fault, store, log) => ⟨⟨job, .error fault⟩, store, log⟩
    | (.ok result, store, log) =>
      ⟨⟨job, .ok (result, false)⟩, job.keep stamp result store, log⟩

end ImportAudit.Scan
