import ImportAudit.Scan.Job

/-!
# The worker pool

Workers that take jobs from a bounded queue, do them, and hand a message for each to one of two
bounded channels: results and faults. A pool is a value, and every move of a worker is one step
from it to the next; `settle` lets the workers move until none of them can.
-/

namespace ImportAudit.Scan

/-- What one worker is doing. A job that was taken is looked up, read, kept and counted before its
message is sent, and other workers may move in between. -/
inductive Worker
  | idle
  | holding (job : Job)
  | reading (job : Job) (stamp : Option Stamp)
  | keeping (job : Job) (stamp : Option Stamp) (result : Extraction)
  | finished (message : Message)
  | sending (message : Message)
  | gone

/-- A pool of workers with its queue, its channels and its counts. -/
structure Pool where
  workers : Nat
  crew : List Worker
  queue : List Job
  results : List Message
  faults : List Message
  started : Bool
  stopped : Bool
  closed : Bool
  cancelled : Bool
  submitted : Nat
  processed : Nat
  failed : Nat
  cacheHits : Nat
  store : Store

/-- The number of workers when none is asked for; on a machine with fewer processors fewer would
do. -/
def defaultWorkers : Nat := 16

/-- The number of workers for a requested number: a positive request is granted. -/
def workersFor (requested : Int) : Nat :=
  if 0 < requested then requested.toNat else defaultWorkers

namespace Pool

def new (requested : Int) (store : Store) : Pool :=
  { workers := workersFor requested
    crew := []
    queue := []
    results := []
    faults := []
    started := false
    stopped := false
    closed := false
    cancelled := false
    submitted := 0
    processed := 0
    failed := 0
    cacheHits := 0
    store }

def queueLimit (pool : Pool) : Nat := 2 * pool.workers

/-- Starts the workers, once. -/
def start (pool : Pool) : Pool :=
  if pool.started then pool
  else { pool with started := true, crew := List.replicate pool.workers .idle }

/-- What becomes of a submitted job. -/
inductive Submission
  | accepted (pool : Pool)
  | refused (pool : Pool) (fault : Fault)
  | blocked (pool : Pool)

/-- Submits a job. A stopped pool does not even count it; a cancelled pool counts and refuses it;
with a full queue the submitter waits. -/
def submit (pool : Pool) (job : Job) : Submission :=
  if pool.stopped then .refused pool .poolStopped
  else
    let counted := { pool with submitted := pool.submitted + 1 }
    if pool.cancelled then .refused counted (.during .pool .cancelled)
    else if pool.queue.length < pool.queueLimit then
      .accepted { counted with queue := pool.queue ++ [job] }
    else .blocked counted

def count (pool : Pool) (message : Message) : Pool :=
  match message.outcome with
  | .ok _ => { pool with processed := pool.processed + 1 }
  | .error _ => { pool with failed := pool.failed + 1 }

def countHit (pool : Pool) : Except Fault (Extraction × Bool) → Pool
  | .ok (_, true) => { pool with cacheHits := pool.cacheHits + 1 }
  | _ => pool

def deliver? (pool : Pool) (message : Message) : Option Pool :=
  match message.outcome with
  | .ok _ =>
    if pool.results.length < pool.workers then
      some { pool with results := pool.results ++ [message] }
    else none
  | .error _ =>
    if pool.faults.length < pool.workers then
      some { pool with faults := pool.faults ++ [message] }
    else none

/-- The next move of a worker, if it has one: the pool afterwards and what the worker then does.
A cancelled pool sends its idle workers away and drops what cannot be delivered. -/
def move? (pool : Pool) : Worker → Option (Pool × Worker)
  | .idle =>
    if pool.cancelled then some (pool, .gone)
    else
      match pool.queue with
      | job :: rest => some ({ pool with queue := rest }, .holding job)
      | [] => if pool.closed then some (pool, .gone) else none
  | .holding job =>
    match job.look pool.store with
    | (.settled outcome, store) =>
      some ({ pool with store }.countHit outcome, .finished ⟨job, outcome⟩)
    | (.unread stamp, store) => some ({ pool with store }, .reading job stamp)
  | .reading job stamp =>
    match job.extract pool.store with
    | (.error fault, store, _) => some ({ pool with store }, .finished ⟨job, .error fault⟩)
    | (.ok result, store, _) => some ({ pool with store }, .keeping job stamp result)
  | .keeping job stamp result =>
    some ({ pool with store := job.keep stamp result pool.store },
      .finished ⟨job, .ok (result, false)⟩)
  | .finished message => some (pool.count message, .sending message)
  | .sending message =>
    match pool.deliver? message with
    | some pool => some (pool, .idle)
    | none => if pool.cancelled then some (pool, .idle) else none
  | .gone => none

/-- Lets the first worker move that can, given the workers before it from last to first. -/
def moveFirst? (pool : Pool) (before : List Worker) : List Worker → Option Pool
  | [] => none
  | worker :: rest =>
    match pool.move? worker with
    | some (pool, worker) => some { pool with crew := before.reverse ++ worker :: rest }
    | none => moveFirst? pool (worker :: before) rest

def run (pool : Pool) : Nat → Pool
  | 0 => pool
  | moves + 1 =>
    match pool.moveFirst? [] pool.crew with
    | some next => next.run moves
    | none => pool

/-- Lets the workers move until none can: each job takes six moves, and each worker leaves
once. -/
def settle (pool : Pool) : Pool :=
  pool.run (6 * pool.queue.length + 6 * pool.crew.length)

/-- Takes one message from the channels, results first. -/
def receive? (pool : Pool) : Option (Message × Pool) :=
  match pool.results, pool.faults with
  | message :: rest, _ => some (message, { pool with results := rest })
  | [], message :: rest => some (message, { pool with faults := rest })
  | [], [] => none

/-- Takes at most `count` messages, the workers moving in between. -/
def collect (pool : Pool) : Nat → List Message × Pool
  | 0 => ([], pool)
  | count + 1 =>
    match pool.settle.receive? with
    | none => ([], pool.settle)
    | some (message, pool) =>
      let (messages, pool) := pool.collect count
      (message :: messages, pool)

/-- Says that no job will follow. -/
def finish (pool : Pool) : Pool := { pool with closed := true }

/-- Cancels the work: jobs still queued are not taken any more. -/
def cancel (pool : Pool) : Pool := { pool with cancelled := true }

/-- Stops the pool for good. -/
def stop (pool : Pool) : Pool :=
  if pool.stopped then pool
  else { pool with stopped := true, closed := true, cancelled := true }

end Pool

end ImportAudit.Scan
