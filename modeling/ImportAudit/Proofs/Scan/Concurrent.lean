import ImportAudit.Proofs.Scan.Jobs
import Mathlib.Logic.Relation

/-!
# Scans with workers

A scan while it runs: a submitter that hands the jobs to the bounded queue of a pool, the workers
of the pool, and a collector that takes messages from the two channels and files them under the
number of their job. Any of them may take the next step. The caller may cancel at any point, and
the pool learns of it later.

A worker or a submitter that could leave because of the cancellation may as well go on: where
several ways are open, either is taken. `Builds` says what a scan can return.
-/

namespace ImportAudit.Scan

namespace Pool

/-- What one worker can do next. Besides the move of a settled pool, a worker of a cancelled pool
may still take a job, and may drop a message for which there is room. -/
inductive Moves : Pool → Worker → Pool → Worker → Prop
  | regular {pool after : Pool} {worker next : Worker}
      (moved : pool.move? worker = some (after, next)) : Moves pool worker after next
  | takes {pool : Pool} {job : Job} {rest : List Job} (cancelled : pool.cancelled = true)
      (queued : pool.queue = job :: rest) :
      Moves pool .idle { pool with queue := rest } (.holding job)
  | drops {pool : Pool} {message : Message} (cancelled : pool.cancelled = true) :
      Moves pool (.sending message) pool .idle

/-- What submitting a job can do to the pool. A cancelled pool may still accept it. -/
inductive Accepts : Pool → Job → Pool → Prop
  | regular {pool after : Pool} {job : Job} (accepted : pool.submit job = .accepted after) :
      Accepts pool job after
  | anyway {pool : Pool} {job : Job} (cancelled : pool.cancelled = true)
      (room : pool.queue.length < pool.queueLimit) :
      Accepts pool job
        { pool with submitted := pool.submitted + 1, queue := pool.queue ++ [job] }

end Pool

/-- How a scan ends: with a fault, with an index and its counts, or, where the result of a file is
missing when the index is to be assembled, with neither. -/
inductive Verdict where
  | failed (fault : Fault)
  | built (index : Index) (stats : ScanStats)
  | incomplete
  deriving DecidableEq

/-- A scan while it runs: the pool, the jobs still to be submitted, a slot for the result and one
for the fault of each file, the counts of the collector and whether it is still collecting,
whether the caller has cancelled, and the verdict once there is one. -/
structure Run where
  pool : Pool
  waiting : List Job
  results : List (Option Extraction)
  faults : List (Option Fault)
  indexed : Nat
  failed : Nat
  cacheHits : Nat
  collecting : Bool
  cancelled : Bool
  verdict : Option Verdict

def filled? {α : Type} : List (Option α) → Option (List α)
  | [] => some []
  | none :: _ => none
  | some value :: rest => (filled? rest).map (value :: ·)

def firstFault? : List String → List (Option Fault) → Option Fault
  | file :: _, some fault :: _ => some (.during (.indexing file) fault)
  | _ :: files, none :: faults => firstFault? files faults
  | _, _ => none

namespace Run

def start (workers : Nat) (store : Store) (jobs : List Job) : Run :=
  { pool := (Pool.new workers store).start
    waiting := jobs
    results := jobs.map fun _ => none
    faults := jobs.map fun _ => none
    indexed := 0
    failed := 0
    cacheHits := 0
    collecting := true
    cancelled := false
    verdict := none }

def awaits (run : Run) : Prop :=
  run.collecting = true ∧ run.indexed + run.failed < run.results.length

/-- A result filed in the slot of its job. -/
def fileResult (run : Run) (job : Job) (found : Extraction × Bool) : Run :=
  { run with
    results := run.results.set job.id.toNat (some found.1)
    indexed := run.indexed + 1
    cacheHits := run.cacheHits + (if found.2 then 1 else 0) }

def fileFault (run : Run) (job : Job) (fault : Fault) : Run :=
  { run with
    faults := run.faults.set job.id.toNat (some fault)
    failed := run.failed + 1 }

section Conclusion

variable (root : String) (options : Options) (files : List String)

/-- What a scan whose collector has ended makes of its slots. A cancelled one fails whatever was
filed; otherwise the first fault counts, and without one the index is assembled. -/
def concluded (run : Run) : Verdict :=
  if run.cancelled then .failed (.during .scan .cancelled)
  else
    match firstFault? files run.faults with
    | some fault => .failed fault
    | none =>
      match filled? run.results with
      | none => .incomplete
      | some results =>
        let filed := files.zip (results.map (·, false))
        let index := assemble root options.componentExtension files filed
        .built index
          { statsOf options.workers files filed index with
            filesIndexed := run.indexed
            filesFailed := run.failed
            cacheHits := run.cacheHits }

/-- One step of a scan: by a worker, the submitter, the collector, or whoever cancels it. -/
inductive Step : Run → Run → Prop
  | work {run : Run} {pool : Pool} {before after : List Worker} {worker next : Worker}
      (crew : run.pool.crew = before ++ worker :: after)
      (moves : run.pool.Moves worker pool next) :
      Step run { run with pool := { pool with crew := before ++ next :: after } }
  | submit {run : Run} {pool : Pool} {job : Job} {rest : List Job}
      (waiting : run.waiting = job :: rest) (accepts : run.pool.Accepts job pool) :
      Step run { run with pool, waiting := rest }
  | refuse {run : Run} {pool : Pool} {job : Job} {rest : List Job} {fault : Fault}
      (waiting : run.waiting = job :: rest) (refused : run.pool.submit job = .refused pool fault) :
      Step run { run with pool, waiting := [] }
  | finish {run : Run} (waiting : run.waiting = []) :
      Step run { run with pool := run.pool.finish }
  | collectResult {run : Run} {message : Message} {rest : List Message}
      {found : Extraction × Bool} (awaits : run.awaits)
      (arrived : run.pool.results = message :: rest) (outcome : message.outcome = .ok found) :
      Step run ({ run with pool := { run.pool with results := rest } }.fileResult
        message.job found)
  | collectFault {run : Run} {message : Message} {rest : List Message} {fault : Fault}
      (awaits : run.awaits) (arrived : run.pool.faults = message :: rest)
      (outcome : message.outcome = .error fault) :
      Step run ({ run with pool := { run.pool with faults := rest } }.fileFault
        message.job fault)
  | collected {run : Run} (all : run.indexed + run.failed = run.results.length) :
      Step run { run with collecting := false }
  | abandon {run : Run} (cancelled : run.cancelled = true) :
      Step run { run with collecting := false }
  | cancel {run : Run} : Step run { run with cancelled := true }
  | inform {run : Run} (cancelled : run.cancelled = true) :
      Step run { run with pool := run.pool.cancel }
  | conclude {run : Run} (submitted : run.waiting = []) (closed : run.pool.closed = true)
      (collected : run.collecting = false) (pending : run.verdict = none) :
      Step run { run with verdict := some (run.concluded root options files) }
  | stop {run : Run} (concluded : run.verdict ≠ none) :
      Step run { run with pool := run.pool.stop }

end Conclusion

/-- The scan has a verdict, its pool is stopped, and all workers have left. -/
structure Returned (run : Run) (verdict : Verdict) : Prop where
  concluded : run.verdict = some verdict
  stopped : run.pool.stopped = true
  left : ∀ worker ∈ run.pool.crew, worker = .gone

end Run

/-- The number of workers for some files: no more than there are files. -/
def workersOn (options : Options) (files : List String) : Nat :=
  min (workersFor options.workers) files.length

/-- What a scan of the files below a root can return: whether it was cancelled by then, its
verdict, and the result cache afterwards. Without files no pool is started. -/
inductive Builds (cache : Option Cache.Result) (settings : Extraction.Settings) (tree : FileTree)
    (root : String) (options : Options) : Bool → Verdict → Option Cache.Result → Prop
  | undiscovered {fault : Fault} {cancelled : Bool}
      (found : discovered tree root options = .error fault) :
      Builds cache settings tree root options cancelled
        (.failed (.during .discovery fault)) cache
  | empty {cancelled : Bool} (found : discovered tree root options = .ok []) :
      Builds cache settings tree root options cancelled
        (.built (assemble root options.componentExtension [] [])
          (statsOf options.workers [] [] (assemble root options.componentExtension [] []))) cache
  | scanned {files : List String} {run : Run} {verdict : Verdict}
      (found : discovered tree root options = .ok files) (nonempty : files ≠ [])
      (reached : Relation.ReflTransGen (Run.Step root options files)
        (Run.start (workersOn options files) (freshStore settings tree cache)
          (jobsOf root files)) run)
      (returned : run.Returned verdict) :
      Builds cache settings tree root options run.cancelled verdict run.pool.store.results

end ImportAudit.Scan
