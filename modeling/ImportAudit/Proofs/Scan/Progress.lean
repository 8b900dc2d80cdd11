import ImportAudit.Proofs.Scan.Reachable

/-!
# Every scan can return

One schedule that always leads to the end: the first worker does the jobs one after the other,
and the collector takes each message before the next job is submitted. So `Builds` leaves no scan
without an outcome, and what the jobs give one after the other is one that a scan can have.
-/

namespace ImportAudit.Scan

variable (root : String) (options : Options) (files : List String)

/-- Two pools that differ only in what their workers do, in their counts and in their store. -/
structure Pool.Alike (pool after : Pool) : Prop where
  workers : after.workers = pool.workers
  queue : after.queue = pool.queue
  results : after.results = pool.results
  faults : after.faults = pool.faults
  stopped : after.stopped = pool.stopped
  closed : after.closed = pool.closed
  cancelled : after.cancelled = pool.cancelled

@[simp]
theorem Job.run_job (job : Job) (store : Store) : (job.run store).message.job = job := by
  unfold Job.run
  split
  · rfl
  · split <;> rfl

namespace Run

abbrev Reaches : Run → Run → Prop :=
  Relation.ReflTransGen (Step root options files)

variable {root options files} in
theorem reaches_move
    {first run : Run} (reached : Reaches root options files first run) (before : List Worker)
    {pool : Pool} {worker next : Worker} {others : List Worker}
    (crew : run.pool.crew = before ++ worker :: others)
    (moved : run.pool.move? worker = some (pool, next)) :
    Reaches root options files first
      { run with pool := { pool with crew := before ++ next :: others } } :=
  reached.tail (Step.work crew (.regular moved))

/-! ## One job -/

/-- A worker that reads a file comes to the message and leaves the store of the whole job. -/
theorem reaches_finished_of_reading
    (run : Run) {job : Job} {stamp : Option Stamp} {others : List Worker} {before : Store}
    (looked : job.look before = (.unread stamp, run.pool.store))
    (crew : run.pool.crew = .reading job stamp :: others) :
    ∃ pool : Pool, Reaches root options files run { run with pool } ∧ run.pool.Alike pool ∧
      pool.crew = .finished (job.run before).message :: others ∧
        pool.store = (job.run before).store := by
  rcases extracted : job.extract run.pool.store with ⟨fault | result, store, log⟩
  · have moved :
        run.pool.move? (.reading job stamp) =
          some ({ run.pool with store }, .finished ⟨job, .error fault⟩) := by
      simp only [Pool.move?, extracted]
    refine ⟨_, reaches_move .refl [] crew moved, ⟨rfl, rfl, rfl, rfl, rfl, rfl, rfl⟩, ?_, ?_⟩
    · simp only [Job.run, looked, extracted, List.nil_append]
    · simp only [Job.run, looked, extracted]
  · have moved :
        run.pool.move? (.reading job stamp) =
          some ({ run.pool with store }, .keeping job stamp result) := by
      simp only [Pool.move?, extracted]
    have read : Reaches root options files run
        { run with pool :=
          { run.pool with store, crew := .keeping job stamp result :: others } } :=
      reaches_move .refl [] crew moved
    refine ⟨_, reaches_move read [] rfl rfl, ⟨rfl, rfl, rfl, rfl, rfl, rfl, rfl⟩, ?_, ?_⟩
    · simp only [Job.run, looked, extracted, List.nil_append]
    · simp only [Job.run, looked, extracted]

/-- A worker that was given a job comes to its message and leaves its store. -/
theorem reaches_finished
    (run : Run) {job : Job} {others : List Worker}
    (crew : run.pool.crew = .holding job :: others) :
    ∃ pool : Pool, Reaches root options files run { run with pool } ∧ run.pool.Alike pool ∧
      pool.crew = .finished (job.run run.pool.store).message :: others ∧
        pool.store = (job.run run.pool.store).store := by
  rcases looked : job.look run.pool.store with ⟨outcome | stamp, store⟩
  · have moved :
        run.pool.move? (.holding job) =
          some ({ run.pool with store }.countHit outcome, .finished ⟨job, outcome⟩) := by
      simp only [Pool.move?, looked]
    refine ⟨_, reaches_move .refl [] crew moved, ?_, ?_, ?_⟩
    · unfold Pool.countHit
      split <;> exact ⟨rfl, rfl, rfl, rfl, rfl, rfl, rfl⟩
    · simp only [Job.run, looked, List.nil_append]
    · simp only [Job.run, looked]
      unfold Pool.countHit
      split <;> rfl
  · have moved :
        run.pool.move? (.holding job) = some ({ run.pool with store }, .reading job stamp) := by
      simp only [Pool.move?, looked]
    have taken : Reaches root options files run
        { run with pool := { run.pool with store, crew := .reading job stamp :: others } } :=
      reaches_move .refl [] crew moved
    obtain ⟨pool, read, alike, atMessage, sameStore⟩ :=
      reaches_finished_of_reading root options files
        { run with pool := { run.pool with store, crew := .reading job stamp :: others } }
        looked rfl
    exact ⟨pool, taken.trans read, { alike with }, atMessage, sameStore⟩

/-- The run with a message filed. -/
def file (run : Run) (message : Message) : Run :=
  match message.outcome with
  | .ok found => run.fileResult message.job found
  | .error fault => run.fileFault message.job fault

theorem counts_file (run : Run) (message : Message) :
    (run.file message).indexed + (run.file message).failed = run.indexed + run.failed + 1 ∧
      (run.file message).results.length = run.results.length := by
  cases outcome : message.outcome with
  | ok found =>
    simp only [file, outcome, fileResult, List.length_set, and_true]
    omega
  | error fault =>
    simp only [file, outcome, fileFault, and_true]
    omega

theorem file_with (run : Run) (message : Message) (pool : Pool) (waiting : List Job) :
    { run with pool, waiting }.file message = { run.file message with pool, waiting } := by
  unfold file
  split <;> rfl

/-- Nothing is filed for the job yet. -/
def Vacant (run : Run) (job : Job) : Prop :=
  run.results[job.id.toNat]? = some none ∧ run.faults[job.id.toNat]? = some none

/-- Nothing is under way, and the scan goes on. -/
structure Ready (run : Run) : Prop where
  queue : run.pool.queue = []
  results : run.pool.results = []
  faults : run.pool.faults = []
  crew : ∃ others, run.pool.crew = .idle :: others ∧ ∀ worker ∈ others, worker = .idle
  workers : 0 < run.pool.workers
  live : run.pool.cancelled = false ∧ run.pool.stopped = false
  collecting : run.collecting = true
  uncancelled : run.cancelled = false
  pending : run.verdict = none

/-- A message is sent and collected. -/
theorem reaches_filed
    (run : Run) {message : Message} {others : List Worker}
    (crew : run.pool.crew = .finished message :: others) (idle : ∀ worker ∈ others, worker = .idle)
    (queue : run.pool.queue = []) (results : run.pool.results = [])
    (faults : run.pool.faults = []) (workers : 0 < run.pool.workers)
    (live : run.pool.cancelled = false ∧ run.pool.stopped = false) (awaits : run.awaits)
    (uncancelled : run.cancelled = false) (pending : run.verdict = none) :
    ∃ pool : Pool, Reaches root options files run { run.file message with pool } ∧
      { run.file message with pool }.Ready ∧ pool.store = run.pool.store := by
  have counted : Reaches root options files run
      { run with pool :=
        { run.pool.count message with crew := .sending message :: others } } :=
    reaches_move .refl [] crew rfl
  cases outcome : message.outcome with
  | ok found =>
    have sent : Reaches root options files run
        { run with pool :=
          { run.pool with
            processed := run.pool.processed + 1
            results := [message]
            crew := .idle :: others } } := by
      have moved :
          { run.pool.count message with crew := .sending message :: others }.move?
              (.sending message) =
            some
              ({ run.pool with
                 processed := run.pool.processed + 1
                 results := [message]
                 crew := .sending message :: others }, .idle) := by
        simp [Pool.move?, Pool.deliver?, Pool.count, outcome, results, workers]
      have delivered := reaches_move counted [] rfl moved
      exact delivered
    have collected := sent.tail (Step.collectResult awaits rfl outcome)
    have filed : run.file message = run.fileResult message.job found := by
      simp only [file, outcome]
    rw [filed]
    exact ⟨_, collected,
      ⟨queue, rfl, faults, ⟨others, rfl, idle⟩, workers, live, awaits.1, uncancelled, pending⟩,
      rfl⟩
  | error fault =>
    have sent : Reaches root options files run
        { run with pool :=
          { run.pool with
            failed := run.pool.failed + 1
            faults := [message]
            crew := .idle :: others } } := by
      have moved :
          { run.pool.count message with crew := .sending message :: others }.move?
              (.sending message) =
            some
              ({ run.pool with
                 failed := run.pool.failed + 1
                 faults := [message]
                 crew := .sending message :: others }, .idle) := by
        simp [Pool.move?, Pool.deliver?, Pool.count, outcome, faults, workers]
      have delivered := reaches_move counted [] rfl moved
      exact delivered
    have collected := sent.tail (Step.collectFault awaits rfl outcome)
    have filed : run.file message = run.fileFault message.job fault := by
      simp only [file, outcome]
    rw [filed]
    exact ⟨_, collected,
      ⟨queue, results, rfl, ⟨others, rfl, idle⟩, workers, live, awaits.1, uncancelled, pending⟩,
      rfl⟩

/-- From one job to the next. -/
theorem Ready.next
    {run : Run} (ready : run.Ready) {job : Job} {rest : List Job}
    (waiting : run.waiting = job :: rest)
    (remaining : run.indexed + run.failed < run.results.length) :
    ∃ pool : Pool, Reaches root options files run
        { run.file (job.run run.pool.store).message with pool, waiting := rest } ∧
      { run.file (job.run run.pool.store).message with pool, waiting := rest }.Ready ∧
        pool.store = (job.run run.pool.store).store := by
  obtain ⟨others, crew, idle⟩ := ready.crew
  have accepted :
      run.pool.submit job =
        .accepted { run.pool with submitted := run.pool.submitted + 1, queue := [job] } := by
    simp [Pool.submit, ready.live, ready.queue, Pool.queueLimit, ready.workers]
  have submitted : Reaches root options files run
      { run with
        waiting := rest
        pool := { run.pool with submitted := run.pool.submitted + 1, queue := [job] } } :=
    Relation.ReflTransGen.single (Step.submit waiting (.regular accepted))
  have taken : Reaches root options files run
      { run with
        waiting := rest
        pool :=
          { run.pool with
            submitted := run.pool.submitted + 1
            queue := []
            crew := .holding job :: others } } := by
    have moved :
        { run.pool with submitted := run.pool.submitted + 1, queue := [job] }.move? .idle =
          some ({ run.pool with submitted := run.pool.submitted + 1, queue := [] },
            .holding job) := by
      simp [Pool.move?, ready.live]
    have held := reaches_move submitted [] crew moved
    exact held
  obtain ⟨pool, worked, alike, finished, jobStore⟩ :=
    reaches_finished root options files
      { run with
        waiting := rest
        pool :=
          { run.pool with
            submitted := run.pool.submitted + 1
            queue := []
            crew := .holding job :: others } } rfl
  obtain ⟨last, filed, nextReady, sameStore⟩ :=
    reaches_filed root options files { run with waiting := rest, pool } finished idle alike.queue
      (alike.results.trans ready.results) (alike.faults.trans ready.faults)
      (alike.workers ▸ ready.workers)
      ⟨alike.cancelled.trans ready.live.1, alike.stopped.trans ready.live.2⟩
      ⟨ready.collecting, remaining⟩ ready.uncancelled ready.pending
  rw [file_with] at filed nextReady
  exact ⟨last, (taken.trans worked).trans filed, nextReady, sameStore.trans jobStore⟩

/-! ## All jobs, and the end -/

theorem Filed.file
    {contract : Contract} {jobs : List Job} {run : Run} {message : Message}
    (numbered : Numbered jobs) (filed : run.Filed contract jobs) (member : message.job ∈ jobs)
    (vacant : run.Vacant message.job)
    (brings : contract.Brings message.job message.outcome) :
    (run.file message).Filed contract jobs := by
  cases outcome : message.outcome with
  | ok found =>
    simp only [Run.file, outcome]
    exact filed.fileResult numbered member vacant (outcome ▸ brings)
  | error fault =>
    simp only [Run.file, outcome]
    exact filed.fileFault numbered member vacant (outcome ▸ brings)

theorem Vacant.file
    {run : Run} {message : Message} {job : Job} (vacant : run.Vacant job)
    (otherPlace : message.job.id.toNat ≠ job.id.toNat) : (run.file message).Vacant job := by
  cases outcome : message.outcome with
  | ok found =>
    simp only [Vacant, Run.file, outcome, fileResult, List.getElem?_set_ne otherPlace]
    exact vacant
  | error fault =>
    simp only [Vacant, Run.file, outcome, fileFault, List.getElem?_set_ne otherPlace]
    exact vacant

/-- The jobs that wait are done one after the other, and their messages are filed. -/
theorem Ready.all
    {contract : Contract} {jobs : List Job} (numbered : Numbered jobs) {run : Run}
    (ready : run.Ready) (filed : run.Filed contract jobs)
    (known : ∀ job ∈ run.waiting, job ∈ jobs) (distinct : run.waiting.Nodup)
    (vacant : ∀ job ∈ run.waiting, run.Vacant job)
    (brings : ∀ message ∈ (runJobs run.pool.store run.waiting).1,
      contract.Brings message.job message.outcome)
    (remaining : run.indexed + run.failed + run.waiting.length = run.results.length) :
    ∃ next : Run, Reaches root options files run next ∧ next.Ready ∧ next.waiting = [] ∧
      next.indexed + next.failed = next.results.length ∧ next.Filed contract jobs ∧
        next.pool.store = (runJobs run.pool.store run.waiting).2.1 := by
  -- Each job that waits is submitted, done and filed before the next one is submitted.
  induction waits : run.waiting generalizing run with
  | nil =>
    refine ⟨run, .refl, ready, waits, ?_, filed, rfl⟩
    simpa [waits] using remaining
  | cons job rest inductionHypothesis =>
    rw [waits] at known distinct vacant brings
    rw [waits, List.length_cons] at remaining
    obtain ⟨firstKnown, restKnown⟩ := List.forall_mem_cons.mp known
    obtain ⟨firstVacant, restVacant⟩ := List.forall_mem_cons.mp vacant
    obtain ⟨firstBrings, restBrings⟩ := List.forall_mem_cons.mp brings
    obtain ⟨notAgain, restDistinct⟩ := List.nodup_cons.mp distinct
    have sameJob : (job.run run.pool.store).message.job = job := job.run_job run.pool.store
    obtain ⟨counted, sameSlots⟩ := run.counts_file (job.run run.pool.store).message
    obtain ⟨pool, step, nextReady, jobStore⟩ :=
      ready.next root options files waits (by omega)
    have nextFiled : (run.file (job.run run.pool.store).message).Filed contract jobs :=
      filed.file numbered (by rwa [sameJob]) (by rwa [sameJob]) firstBrings
    have nextVacant : ∀ other ∈ rest,
        (run.file (job.run run.pool.store).message).Vacant other := by
      intro other member
      refine (restVacant other member).file ?_
      intro samePlace
      rw [sameJob] at samePlace
      have same := numbered.eq_of_number firstKnown (restKnown other member) samePlace
      exact notAgain (same ▸ member)
    obtain ⟨last, steps, lastReady, noneLeft, all, lastFiled, lastStore⟩ :=
      inductionHypothesis nextReady { nextFiled with } restKnown restDistinct nextVacant
        (by simpa only [jobStore] using restBrings) (by simp only; omega) rfl
    refine ⟨last, step.trans steps, lastReady, noneLeft, all, lastFiled, ?_⟩
    rw [lastStore, jobStore]
    rfl

/-- Workers without a job leave a cancelled pool. -/
theorem reaches_left
    (run : Run) (before : List Worker) (cancelled : run.pool.cancelled = true)
    {others : List Worker}
    (crew : run.pool.crew = before ++ others) (left : ∀ worker ∈ before, worker = .gone)
    (idle : ∀ worker ∈ others, worker = .idle) :
    ∃ crew, Reaches root options files run { run with pool := { run.pool with crew } } ∧
      ∀ worker ∈ crew, worker = .gone := by
  induction others generalizing run before with
  | nil =>
    refine ⟨run.pool.crew, .refl, ?_⟩
    rw [crew, List.append_nil]
    exact left
  | cons worker others inductionHypothesis =>
    have isIdle : worker = .idle := idle worker List.mem_cons_self
    subst isIdle
    have moved : run.pool.move? .idle = some (run.pool, .gone) := by
      simp [Pool.move?, cancelled]
    have moreLeft : ∀ worker ∈ before ++ [.gone], worker = .gone := by
      intro worker member
      rcases List.mem_append.mp member with earlier | now
      · exact left worker earlier
      · exact List.mem_singleton.mp now
    have leaves := reaches_move (.refl : Reaches root options files run run) before crew moved
    obtain ⟨lastCrew, steps, allLeft⟩ :=
      inductionHypothesis
        { run with pool := { run.pool with crew := before ++ .gone :: others } }
        (before ++ [.gone]) cancelled (by simp) moreLeft
        (fun worker member => idle worker (List.mem_cons_of_mem _ member))
    exact ⟨lastCrew, leaves.trans steps, allLeft⟩

/-- A run with all its messages filed goes on to return what they add up to. -/
theorem Ready.returns
    {run : Run} (ready : run.Ready) (waiting : run.waiting = [])
    (all : run.indexed + run.failed = run.results.length) :
    ∃ next : Run, Reaches root options files run next ∧
      next.Returned (run.concluded root options files) ∧ next.cancelled = false ∧
        next.pool.store = run.pool.store := by
  obtain ⟨others, crew, idle⟩ := ready.crew
  have allIdle : ∀ worker ∈ run.pool.crew, worker = .idle := by
    rw [crew]
    exact List.forall_mem_cons.mpr ⟨rfl, idle⟩
  have finished : Reaches root options files run { run with pool := run.pool.finish } :=
    .single (.finish waiting)
  have collected : Reaches root options files run
      { run with pool := run.pool.finish, collecting := false } :=
    finished.tail (.collected all)
  have concluded : Reaches root options files run
      { run with
        pool := run.pool.finish
        collecting := false
        verdict := some (run.concluded root options files) } :=
    collected.tail (.conclude waiting rfl rfl ready.pending)
  have stopped : Reaches root options files run
      { run with
        pool := run.pool.finish.stop
        collecting := false
        verdict := some (run.concluded root options files) } :=
    concluded.tail (.stop (by simp))
  have stopFlags : run.pool.finish.stop.cancelled = true ∧
      run.pool.finish.stop.stopped = true ∧ run.pool.finish.stop.crew = run.pool.crew ∧
        run.pool.finish.stop.store = run.pool.store := by
    simp [Pool.stop, Pool.finish, ready.live]
  obtain ⟨lastCrew, leaves, left⟩ :=
    reaches_left root options files
      { run with
        pool := run.pool.finish.stop
        collecting := false
        verdict := some (run.concluded root options files) } []
      stopFlags.1 stopFlags.2.2.1 (by simp) allIdle
  exact ⟨_, stopped.trans leaves, ⟨rfl, stopFlags.2.1, left⟩, ready.uncancelled,
    stopFlags.2.2.2⟩

theorem ready_start
    {workers : Nat} (positive : 0 < workers) (store : Store) (jobs : List Job) :
    (start workers store jobs).Ready := by
  have granted : workersFor workers = workers := by
    simp [workersFor, positive]
  have crew : (start workers store jobs).pool.crew = List.replicate workers .idle := by
    simp [start, Pool.start, Pool.new, granted]
  refine ⟨rfl, rfl, rfl, ⟨List.replicate (workers - 1) .idle, ?_, ?_⟩, ?_, ⟨rfl, rfl⟩, rfl, rfl,
    rfl⟩
  · rw [crew, ← List.replicate_succ, Nat.sub_add_cancel positive]
  · exact fun worker member => List.eq_of_mem_replicate member
  · simp [start, Pool.start, Pool.new, granted, positive]

end Run

/-- The messages of some jobs and no others. -/
def exactContract (messages : List Message) : Contract where
  Sound _ := True
  Stamped _ _ := True
  Brings job outcome := Message.mk job outcome ∈ messages

theorem eq_of_same_jobs
    {messages others : List Message} (distinct : (messages.map (·.job)).Nodup)
    (sameJobs : others.map (·.job) = messages.map (·.job))
    (brings : ∀ other ∈ others, other ∈ messages) : others = messages := by
  induction messages generalizing others with
  | nil => exact List.map_eq_nil_iff.mp sameJobs
  | cons message rest inductionHypothesis =>
    cases others with
    | nil => cases sameJobs
    | cons other others =>
      obtain ⟨sameJob, sameRest⟩ := List.cons.inj sameJobs
      obtain ⟨firstBrings, restBrings⟩ := List.forall_mem_cons.mp brings
      obtain ⟨notAgain, restDistinct⟩ := List.nodup_cons.mp distinct
      have same : other = message := by
        refine (List.mem_cons.mp firstBrings).resolve_right fun later => notAgain ?_
        have itsJob := List.mem_map_of_mem (f := fun message : Message => message.job) later
        exact sameJob ▸ itsJob
      have restBringsRest : ∀ later ∈ others, later ∈ rest := by
        intro later member
        refine (List.mem_cons.mp (restBrings later member)).resolve_left fun first => notAgain ?_
        have itsJob := List.mem_map_of_mem (f := fun message : Message => message.job) member
        rw [sameRest, first] at itsJob
        exact itsJob
      rw [same, inductionHypothesis restDistinct sameRest restBringsRest]

theorem workersOn_pos {files : List String} (nonempty : files ≠ []) :
    0 < workersOn options files := by
  have someFile : 0 < files.length := List.length_pos_iff.mpr nonempty
  have granted : 0 < workersFor options.workers := by
    unfold workersFor
    split
    · omega
    · decide
  exact Nat.lt_min.mpr ⟨granted, someFile⟩

theorem runJobs_jobs (store : Store) (jobs : List Job) :
    (runJobs store jobs).1.map (·.job) = jobs := by
  induction jobs generalizing store with
  | nil => rfl
  | cons job rest inductionHypothesis =>
    simp only [runJobs, List.map_cons, job.run_job, inductionHypothesis]

/-- The run that does the jobs one after the other returns what they give. -/
theorem Run.returns_sequential
    {files : List String} (nonempty : files ≠ []) (store : Store) :
    ∃ (run : Run) (cacheHits : Nat),
      Run.Reaches root options files
          (Run.start (workersOn options files) store (jobsOf root files)) run ∧
        run.Returned (.of cacheHits
          (builtFrom root options files (runJobs store (jobsOf root files)).1)) ∧
          run.cancelled = false ∧
            run.pool.store = (runJobs store (jobsOf root files)).2.1 := by
  have numbered := jobsOf_numbered root files
  have distinct : (jobsOf root files).Nodup :=
    List.nodup_iff_count_le_one.mpr numbered.count_le_one
  have sane : (Run.start (workersOn options files) store (jobsOf root files)).Sane
      (exactContract (runJobs store (jobsOf root files)).1) root options files
        (jobsOf root files) :=
    Run.sane_start (workersOn options files) numbered trivial
  have ready := Run.ready_start (workersOn_pos options nonempty) store (jobsOf root files)
  have vacant : ∀ job ∈ jobsOf root files,
      (Run.start (workersOn options files) store (jobsOf root files)).Vacant job := by
    intro job member
    refine sane.tracked.vacant job ?_
    have waits := List.count_pos_iff.mpr member
    simp only [Run.underWay, Run.start]
    omega
  obtain ⟨last, done, lastReady, noneLeft, all, filed, lastStore⟩ :=
    ready.all root options files numbered sane.filed (fun _ member => member) distinct vacant
      (fun _ member => member) (by simp [Run.start])
  obtain ⟨ended, ends, returned, uncancelled, endStore⟩ :=
    lastReady.returns root options files noneLeft all
  have counted : last.indexed + last.failed = (jobsOf root files).length :=
    all.trans filed.resultSlots
  have concluded : Run.Concluded (exactContract (runJobs store (jobsOf root files)).1) root options
      files (jobsOf root files) last.cancelled (last.concluded root options files) :=
    filed.concluded numbered (jobsOf_files root files) (Or.inr counted)
  rcases concluded with ⟨cancelled, _⟩ | complete
  · rw [lastReady.uncancelled] at cancelled
    cases cancelled
  · obtain ⟨messages, cacheHits, sameJobs, brings, concluded, _⟩ := complete
    have sameMessages : messages = (runJobs store (jobsOf root files)).1 := by
      refine eq_of_same_jobs ?_ ?_ brings
      · rw [runJobs_jobs]
        exact distinct
      · rw [sameJobs, runJobs_jobs]
    rw [concluded, sameMessages] at returned
    exact ⟨ended, cacheHits, done.trans ends, returned, uncancelled, endStore.trans lastStore⟩

/-- What the jobs of a scan give one after the other is something that the scan can return,
together with the cache that they leave. -/
theorem exists_builds_sequential
    (cache : Option Cache.Result) (settings : Extraction.Settings) (tree : FileTree) :
    ∃ cacheHits,
      Builds cache settings tree root options false
        (.of cacheHits (build cache settings tree root options false).result)
        (build cache settings tree root options false).cache := by
  cases found : discovered tree root options with
  | error fault =>
    have leftAlone : (build cache settings tree root options false).cache = cache := by
      unfold discovered at found
      simp only [build, found]
    rw [build_undiscovered found, leftAlone]
    exact ⟨0, .undiscovered found⟩
  | ok files =>
    rw [build_discovered found, build_cache found]
    by_cases nonempty : files = []
    · subst nonempty
      exact ⟨0, .empty found⟩
    · obtain ⟨run, cacheHits, reached, returned, uncancelled, sameStore⟩ :=
        Run.returns_sequential root options nonempty (freshStore settings tree cache)
      have builds := Builds.scanned found nonempty reached returned
      rw [uncancelled, sameStore] at builds
      exact ⟨cacheHits, builds⟩

/-- Whatever the tree and the cache, a scan that nobody cancels can return. -/
theorem exists_builds
    (cache : Option Cache.Result) (settings : Extraction.Settings) (tree : FileTree) :
    ∃ verdict after, Builds cache settings tree root options false verdict after := by
  obtain ⟨_, builds⟩ := exists_builds_sequential root options cache settings tree
  exact ⟨_, _, builds⟩

end ImportAudit.Scan
