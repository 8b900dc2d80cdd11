import ImportAudit.Proofs.Scan.Slots
import ImportAudit.Proofs.Scan.WorkerMoves
import Mathlib.Algebra.GroupWithZero.Nat
import Mathlib.Data.List.Nodup
import Mathlib.Tactic.Common

/-!
# Every message reaches its slot

What holds of a scan at every point, whatever the order of its steps. Each job is in at most one
place: waiting, queued, with a worker, or in a channel; while it is, its slots are empty. A filled
slot holds what the contract says the job brings. So when the counts of the collector reach the
number of files, each file has its own result or its own fault.
-/

namespace ImportAudit.Scan

variable {contract : Contract} {root : String} {options : Options} {files : List String}
  {jobs : List Job}

/-- Every job has its place among the jobs as its number. -/
def Numbered (jobs : List Job) : Prop :=
  ∀ (place : Nat) (job : Job), jobs[place]? = some job → job.id = place

theorem Numbered.place_of_mem
    (numbered : Numbered jobs) {job : Job} (member : job ∈ jobs) :
    jobs[job.id.toNat]? = some job := by
  obtain ⟨place, found⟩ := List.getElem?_of_mem member
  have number := numbered place job found
  rw [number, Int.toNat_natCast]
  exact found

theorem Numbered.eq_of_number
    (numbered : Numbered jobs) {job other : Job} (member : job ∈ jobs) (otherMember : other ∈ jobs)
    (same : job.id.toNat = other.id.toNat) : job = other := by
  have found := numbered.place_of_mem member
  rw [same, numbered.place_of_mem otherMember] at found
  exact (Option.some.inj found).symm

theorem Numbered.count_le_one (numbered : Numbered jobs) (job : Job) : jobs.count job ≤ 1 := by
  have distinct : jobs.Nodup := by
    refine List.nodup_iff_getElem?_ne_getElem?.mpr fun place other before inside same => ?_
    have found := List.getElem?_eq_getElem inside
    have number := numbered other _ found
    have otherNumber := numbered place _ (same.trans found)
    omega
  exact List.nodup_iff_count_le_one.mp distinct job

namespace Run

/-- In how many places a job is under way. -/
def underWay (run : Run) (job : Job) : Nat :=
  run.waiting.count job + run.pool.carries job + (run.pool.crew.map (·.carries job)).sum

/-- Jobs under way are jobs of the scan, each in one place and with empty slots. -/
structure Tracked (jobs : List Job) (run : Run) : Prop where
  single : ∀ job, run.underWay job ≤ 1
  known : ∀ job, 0 < run.underWay job → job ∈ jobs
  vacant : ∀ job, 0 < run.underWay job →
    run.results[job.id.toNat]? = some none ∧ run.faults[job.id.toNat]? = some none

/-- Slots hold what their own jobs bring, and the counts are those of the filled slots. -/
structure Filed (contract : Contract) (jobs : List Job) (run : Run) : Prop where
  resultSlots : run.results.length = jobs.length
  faultSlots : run.faults.length = jobs.length
  results : ∀ job ∈ jobs, ∀ result, run.results[job.id.toNat]? = some (some result) →
    ∃ cached, contract.Brings job (.ok (result, cached))
  faults : ∀ job ∈ jobs, ∀ fault, run.faults[job.id.toNat]? = some (some fault) →
    contract.Brings job (.error fault)
  apart : Apart run.results run.faults
  indexed : run.indexed = run.results.countP Option.isSome
  failed : run.failed = run.faults.countP Option.isSome
  uncached : (∀ job result, ¬ contract.Brings job (.ok (result, true))) → run.cacheHits = 0

/-- The verdict is a cancellation, or what messages of all jobs that keep the contract give. -/
def Concluded (contract : Contract) (root : String) (options : Options) (files : List String)
    (jobs : List Job) (cancelled : Bool) (verdict : Verdict) : Prop :=
  (cancelled = true ∧ verdict = .failed (.during .scan .cancelled)) ∨
    ∃ (messages : List Message) (cacheHits : Nat),
      messages.map (·.job) = jobs ∧
        (∀ message ∈ messages, contract.Brings message.job message.outcome) ∧
          verdict = .of cacheHits (builtFrom root options files messages) ∧
            ((∀ job result, ¬ contract.Brings job (.ok (result, true))) → cacheHits = 0)

/-- What holds of a scan at every point. -/
structure Sane (contract : Contract) (root : String) (options : Options) (files : List String)
    (jobs : List Job) (run : Run) : Prop where
  sound : contract.Sound run.pool.store
  delivered : contract.Delivered run.pool
  crew : ∀ worker ∈ run.pool.crew, contract.Holds worker
  tracked : run.Tracked jobs
  filed : run.Filed contract jobs
  settled : run.collecting = false →
    run.cancelled = true ∨ run.indexed + run.failed = jobs.length
  verdict : ∀ verdict, run.verdict = some verdict →
    Concluded contract root options files jobs run.cancelled verdict

/-! ## Filing a message -/

/-- A job whose message is filed leaves the others as they were. -/
theorem Tracked.of_taken
    {run after : Run} {taken : Job} (numbered : Numbered jobs) (tracked : run.Tracked jobs)
    (fewer : ∀ job, after.underWay job + [taken].count job ≤ run.underWay job)
    (sameResults : ∀ place, place ≠ taken.id.toNat → after.results[place]? = run.results[place]?)
    (sameFaults : ∀ place, place ≠ taken.id.toNat → after.faults[place]? = run.faults[place]?) :
    after.Tracked jobs := by
  have stillUnderWay : ∀ job, 0 < after.underWay job → 0 < run.underWay job := by
    intro job positive
    have atMost := fewer job
    omega
  have takenKnown : taken ∈ jobs := by
    refine tracked.known taken ?_
    have atMost := fewer taken
    rw [List.count_singleton_self] at atMost
    omega
  refine ⟨fun job => ?_, fun job positive => tracked.known job (stillUnderWay job positive),
    fun job positive => ?_⟩
  · have atMost := fewer job
    have single := tracked.single job
    omega
  · have otherJob : job ≠ taken := by
      rintro rfl
      have atMost := fewer job
      have single := tracked.single job
      rw [List.count_singleton_self] at atMost
      omega
    have otherPlace : job.id.toNat ≠ taken.id.toNat := by
      intro samePlace
      have member := tracked.known job (stillUnderWay job positive)
      exact otherJob (numbered.eq_of_number member takenKnown samePlace)
    rw [sameResults _ otherPlace, sameFaults _ otherPlace]
    exact tracked.vacant job (stillUnderWay job positive)

/-- A result goes into the vacant slot of its job, and the other slots stay as they were. -/
theorem Filed.fileResult
    {run : Run} {job : Job} {found : Extraction × Bool} (numbered : Numbered jobs)
    (filed : run.Filed contract jobs) (member : job ∈ jobs)
    (vacant : run.results[job.id.toNat]? = some none ∧ run.faults[job.id.toNat]? = some none)
    (brings : contract.Brings job (.ok found)) :
    (run.fileResult job found).Filed contract jobs := by
  obtain ⟨inside, _⟩ := List.getElem?_eq_some_iff.mp vacant.1
  refine ⟨?_, filed.faultSlots, ?_, filed.faults, ?_, ?_, filed.failed, ?_⟩
  · simpa [Run.fileResult] using filed.resultSlots
  · intro other otherMember result held
    by_cases samePlace : job.id.toNat = other.id.toNat
    · have sameJob := numbered.eq_of_number member otherMember samePlace
      subst sameJob
      have resultIs : found.1 = result := by
        simpa [Run.fileResult, List.getElem?_set_self inside] using held
      exact ⟨found.2, by simpa [← resultIs] using brings⟩
    · refine filed.results other otherMember result ?_
      simpa [Run.fileResult, List.getElem?_set_ne samePlace] using held
  · intro place result held
    by_cases samePlace : job.id.toNat = place
    · rw [← samePlace]
      exact vacant.2
    · refine filed.apart place result ?_
      simpa [Run.fileResult, List.getElem?_set_ne samePlace] using held
  · simp only [Run.fileResult, countP_fill vacant.1, filed.indexed]
  · intro neverCached
    have fresh : found.2 = false := by
      rcases found with ⟨result, _ | _⟩
      · rfl
      · exact absurd brings (neverCached job result)
    simp [Run.fileResult, fresh, filed.uncached neverCached]

theorem Filed.fileFault
    {run : Run} {job : Job} {fault : Fault} (numbered : Numbered jobs)
    (filed : run.Filed contract jobs) (member : job ∈ jobs)
    (vacant : run.results[job.id.toNat]? = some none ∧ run.faults[job.id.toNat]? = some none)
    (brings : contract.Brings job (.error fault)) :
    (run.fileFault job fault).Filed contract jobs := by
  obtain ⟨inside, _⟩ := List.getElem?_eq_some_iff.mp vacant.2
  refine ⟨filed.resultSlots, ?_, filed.results, ?_, ?_, filed.indexed, ?_, filed.uncached⟩
  · simpa [Run.fileFault] using filed.faultSlots
  · intro other otherMember reported held
    by_cases samePlace : job.id.toNat = other.id.toNat
    · have sameJob := numbered.eq_of_number member otherMember samePlace
      subst sameJob
      have faultIs : fault = reported := by
        simpa [Run.fileFault, List.getElem?_set_self inside] using held
      simpa [← faultIs] using brings
    · refine filed.faults other otherMember reported ?_
      simpa [Run.fileFault, List.getElem?_set_ne samePlace] using held
  · intro place result held
    have otherPlace : job.id.toNat ≠ place := by
      rintro rfl
      rw [Run.fileFault, vacant.1] at held
      simp at held
    simpa [Run.fileFault, List.getElem?_set_ne otherPlace] using filed.apart place result held
  · simp only [Run.fileFault, countP_fill vacant.2, filed.failed]

/-! ## The verdict of complete slots -/

/-- Where the counts reach the number of jobs, every job has the slot that it brought. -/
theorem Filed.answered
    {run : Run} (numbered : Numbered jobs) (filed : run.Filed contract jobs)
    (all : run.indexed + run.failed = jobs.length)
    (place : Nat) (job : Job) (found : jobs[place]? = some job) :
    (∃ fault, run.faults[place]? = some (some fault) ∧ contract.Brings job (.error fault)) ∨
      (run.faults[place]? = some none ∧
        ∃ result cached, run.results[place]? = some (some result) ∧
          contract.Brings job (.ok (result, cached))) := by
  have member : job ∈ jobs := List.mem_of_getElem? found
  have number : job.id.toNat = place := by
    rw [numbered place job found, Int.toNat_natCast]
  obtain ⟨inside, _⟩ := List.getElem?_eq_some_iff.mp found
  have sameLength : run.results.length = run.faults.length :=
    filed.resultSlots.trans filed.faultSlots.symm
  have counted :
      run.results.countP Option.isSome + run.faults.countP Option.isSome =
        run.results.length := by
    rw [← filed.indexed, ← filed.failed, all, filed.resultSlots]
  rcases filed.apart.filled_of_count sameLength counted (filed.resultSlots ▸ inside) with
    ⟨result, held⟩ | ⟨fault, held⟩
  · obtain ⟨cached, brings⟩ := filed.results job member result (number ▸ held)
    exact Or.inr ⟨filed.apart place result held, result, cached, held, brings⟩
  · exact Or.inl ⟨fault, held, filed.faults job member fault (number ▸ held)⟩

/-- No result is missing when the index is assembled. -/
theorem Filed.concluded
    {run : Run} (numbered : Numbered jobs) (named : jobs.map (·.file) = files)
    (filed : run.Filed contract jobs)
    (settled : run.cancelled = true ∨ run.indexed + run.failed = jobs.length) :
    Concluded contract root options files jobs run.cancelled
      (run.concluded root options files) := by
  by_cases cancelled : run.cancelled = true
  · exact Or.inl ⟨cancelled, by rw [Run.concluded, if_pos cancelled]⟩
  · have all : run.indexed + run.failed = jobs.length := settled.resolve_left cancelled
    -- Every slot is filled, so the slots stand for messages, one of each job.
    obtain ⟨messages, sameJobs, brings, agrees⟩ :=
      exists_messages filed.resultSlots filed.faultSlots (filed.answered numbered all)
    subst named
    refine Or.inr ⟨messages, run.cacheHits, sameJobs, brings, ?_, filed.uncached⟩
    rw [Run.concluded, if_neg cancelled, builtFrom]
    cases gathered : resultsOf messages with
    | error fault => simp only [agrees.onFault fault gathered, Verdict.of]
    | ok found =>
      obtain ⟨noFault, extractions, allFilled, sameResults⟩ := agrees.onResults found gathered
      obtain ⟨sameLength, counted⟩ := length_of_filled? allFilled
      rw [filed.resultSlots] at sameLength counted
      have sameUnmarked :
          ((jobs.map (·.file)).zip (extractions.map (·, false))).map unmarked =
            found.map unmarked := by
        rw [sameResults, List.zip_map_right, List.map_map]
        exact List.map_id' _
      have allIndexed :
          run.indexed = ((jobs.map (·.file)).zip (extractions.map (·, false))).length := by
        rw [filed.indexed, counted, List.length_zip, List.length_map, List.length_map, sameLength,
          Nat.min_self]
      have noFailure : run.failed = 0 := by
        have indexed := filed.indexed
        omega
      simp only [noFault, allFilled, Verdict.of, assemble_of_unmarked sameUnmarked, noFailure,
        ← statsOf_of_unmarked sameUnmarked]
      rw [allIndexed]
      rfl

/-! ## Steps -/

/-- What changes only the pool and the jobs that wait has to keep the contract and not to multiply
jobs. -/
theorem Sane.of_pool
    {run : Run} {pool : Pool} {waiting : List Job}
    (sane : run.Sane contract root options files jobs)
    (sound : contract.Sound pool.store) (delivered : contract.Delivered pool)
    (crew : ∀ worker ∈ pool.crew, contract.Holds worker)
    (fewer : ∀ job, { run with pool, waiting }.underWay job ≤ run.underWay job) :
    { run with pool, waiting }.Sane contract root options files jobs where
  sound := sound
  delivered := delivered
  crew := crew
  tracked :=
    { single := fun job => Nat.le_trans (fewer job) (sane.tracked.single job)
      known := fun job positive =>
        sane.tracked.known job (Nat.lt_of_lt_of_le positive (fewer job))
      vacant := fun job positive =>
        sane.tracked.vacant job (Nat.lt_of_lt_of_le positive (fewer job)) }
  filed := { sane.filed with }
  settled := sane.settled
  verdict := sane.verdict

/-- A move of a worker keeps a scan sane. -/
theorem Sane.work
    {run : Run} {pool : Pool} {before after : List Worker} {worker next : Worker}
    (binds : ∀ job ∈ jobs, contract.Binds job)
    (sane : run.Sane contract root options files jobs)
    (crew : run.pool.crew = before ++ worker :: after)
    (moves : run.pool.Moves worker pool next) :
    { run with pool := { pool with crew := before ++ next :: after } }.Sane
      contract root options files jobs := by
  have bound : ∀ job, worker.job? = some job → contract.Binds job := by
    intro job atJob
    refine binds job (sane.tracked.known job ?_)
    simp only [underWay, crew, List.map_append, List.map_cons, List.sum_append, List.sum_cons,
      Worker.carries, atJob, Option.toList_some, List.count_singleton_self]
    omega
  have held : contract.Holds worker := sane.crew worker (by simp [crew])
  have passes := moves.passes bound sane.sound sane.delivered held
  refine sane.of_pool passes.sound passes.delivered ?_ ?_
  · intro other member
    have cases : other = next ∨ other ∈ run.pool.crew := by
      simp only [List.mem_append, List.mem_cons, crew] at member ⊢
      tauto
    rcases cases with rfl | stays
    · exact passes.holds
    · exact sane.crew other stays
  · intro job
    have carried := passes.carried job
    simp only [underWay, crew, Pool.carries, List.map_append, List.map_cons, List.sum_append,
      List.sum_cons] at carried ⊢
    omega

/-- Submitting the next job keeps a scan sane. -/
theorem Sane.submit
    {run : Run} {pool : Pool} {job : Job} {rest : List Job}
    (sane : run.Sane contract root options files jobs)
    (waiting : run.waiting = job :: rest) (accepts : run.pool.Accepts job pool) :
    { run with pool, waiting := rest }.Sane contract root options files jobs := by
  have queued :
      pool = { run.pool with
        submitted := run.pool.submitted + 1, queue := run.pool.queue ++ [job] } := by
    cases accepts with
    | anyway _ _ => rfl
    | regular accepted =>
      unfold Pool.submit at accepted
      split at accepted
      · cases accepted
      · simp only at accepted
        split at accepted
        · cases accepted
        · split at accepted
          · exact (Pool.Submission.accepted.inj accepted).symm
          · cases accepted
  subst queued
  refine sane.of_pool sane.sound sane.delivered sane.crew fun other => ?_
  simp only [underWay, waiting, Pool.carries, List.count_append, List.count_cons, List.count_nil]
  omega

theorem Sane.refuse
    {run : Run} {pool : Pool} {job : Job} {fault : Fault}
    (sane : run.Sane contract root options files jobs)
    (refused : run.pool.submit job = .refused pool fault) :
    { run with pool, waiting := [] }.Sane contract root options files jobs := by
  have unchanged : ∃ submitted, pool = { run.pool with submitted } := by
    unfold Pool.submit at refused
    split at refused
    · cases refused
      exact ⟨run.pool.submitted, rfl⟩
    · simp only at refused
      split at refused
      · cases refused
        exact ⟨run.pool.submitted + 1, rfl⟩
      · split at refused <;> cases refused
  obtain ⟨submitted, rfl⟩ := unchanged
  refine sane.of_pool sane.sound sane.delivered sane.crew fun other => ?_
  simp only [underWay, Pool.carries, List.count_nil]
  omega

/-- The collector takes a message out of its channel and files it. -/
theorem Sane.of_collected
    {run after : Run} {message : Message} (numbered : Numbered jobs)
    (sane : run.Sane contract root options files jobs) (awaits : run.awaits)
    (arrived : message ∈ run.pool.results ++ run.pool.faults)
    (fewer : ∀ job, after.underWay job + [message.job].count job ≤ run.underWay job)
    (samePool : after.pool.store = run.pool.store ∧ after.pool.crew = run.pool.crew ∧
      ∀ other ∈ after.pool.results ++ after.pool.faults,
        other ∈ run.pool.results ++ run.pool.faults)
    (sameRun : after.collecting = run.collecting ∧ after.cancelled = run.cancelled ∧
      after.verdict = run.verdict)
    (sameSlots : ∀ place, place ≠ message.job.id.toNat →
      after.results[place]? = run.results[place]? ∧ after.faults[place]? = run.faults[place]?)
    (filed : message.job ∈ jobs →
      run.results[message.job.id.toNat]? = some none ∧
        run.faults[message.job.id.toNat]? = some none →
      contract.Brings message.job message.outcome → after.Filed contract jobs) :
    after.Sane contract root options files jobs := by
  obtain ⟨sameStore, sameCrew, delivered⟩ := samePool
  obtain ⟨sameCollecting, sameCancelled, sameVerdict⟩ := sameRun
  -- The message is under way before it is filed, so the slots of its job are still empty.
  have present : 0 < run.underWay message.job := by
    have atMost := fewer message.job
    rw [List.count_singleton_self] at atMost
    omega
  have known := sane.tracked.known message.job present
  have vacant := sane.tracked.vacant message.job present
  refine ⟨sameStore ▸ sane.sound, fun other member => sane.delivered other (delivered other member),
    sameCrew ▸ sane.crew, ?_, filed known vacant (sane.delivered message arrived), ?_, ?_⟩
  · exact sane.tracked.of_taken numbered fewer
      (fun place otherPlace => (sameSlots place otherPlace).1)
      (fun place otherPlace => (sameSlots place otherPlace).2)
  · intro stopped
    rw [sameCollecting, awaits.1] at stopped
    cases stopped
  · rw [sameVerdict, sameCancelled]
    exact sane.verdict

theorem Sane.collectResult
    {run : Run} {message : Message} {rest : List Message} {found : Extraction × Bool}
    (numbered : Numbered jobs) (sane : run.Sane contract root options files jobs)
    (awaits : run.awaits) (arrived : run.pool.results = message :: rest)
    (outcome : message.outcome = .ok found) :
    ({ run with pool := { run.pool with results := rest } }.fileResult message.job found).Sane
      contract root options files jobs := by
  refine sane.of_collected numbered awaits (by simp [arrived]) (fun job => ?_)
    ⟨rfl, rfl, fun other member => ?_⟩ ⟨rfl, rfl, rfl⟩
    (fun place otherPlace => ⟨List.getElem?_set_ne (Ne.symm otherPlace), rfl⟩) ?_
  · simp only [underWay, fileResult, Pool.carries, arrived, List.map_cons, List.count_cons,
      List.count_nil]
    omega
  · simp only [fileResult, List.mem_append, arrived, List.mem_cons] at member ⊢
    tauto
  · intro known vacant brings
    have filed : { run with pool := { run.pool with results := rest } }.Filed contract jobs :=
      { sane.filed with }
    exact filed.fileResult numbered known vacant (outcome ▸ brings)

theorem Sane.collectFault
    {run : Run} {message : Message} {rest : List Message} {fault : Fault}
    (numbered : Numbered jobs) (sane : run.Sane contract root options files jobs)
    (awaits : run.awaits) (arrived : run.pool.faults = message :: rest)
    (outcome : message.outcome = .error fault) :
    ({ run with pool := { run.pool with faults := rest } }.fileFault message.job fault).Sane
      contract root options files jobs := by
  refine sane.of_collected numbered awaits (by simp [arrived]) (fun job => ?_)
    ⟨rfl, rfl, fun other member => ?_⟩ ⟨rfl, rfl, rfl⟩
    (fun place otherPlace => ⟨rfl, List.getElem?_set_ne (Ne.symm otherPlace)⟩) ?_
  · simp only [underWay, fileFault, Pool.carries, arrived, List.map_cons, List.count_cons,
      List.count_nil]
    omega
  · simp only [fileFault, List.mem_append, arrived, List.mem_cons] at member ⊢
    tauto
  · intro known vacant brings
    have filed : { run with pool := { run.pool with faults := rest } }.Filed contract jobs :=
      { sane.filed with }
    exact filed.fileFault numbered known vacant (outcome ▸ brings)

/-- Every step keeps what holds of a scan. -/
theorem Sane.step
    {run next : Run} (numbered : Numbered jobs) (named : jobs.map (·.file) = files)
    (binds : ∀ job ∈ jobs, contract.Binds job)
    (sane : run.Sane contract root options files jobs) (step : Step root options files run next) :
    next.Sane contract root options files jobs := by
  cases step with
  | work crew moves => exact sane.work binds crew moves
  | submit waiting accepts => exact sane.submit waiting accepts
  | refuse _ refused => exact sane.refuse refused
  | finish _ =>
    exact sane.of_pool sane.sound sane.delivered sane.crew fun _ => Nat.le_refl _
  | collectResult awaits arrived outcome =>
    exact sane.collectResult numbered awaits arrived outcome
  | collectFault awaits arrived outcome =>
    exact sane.collectFault numbered awaits arrived outcome
  | collected all =>
    have counted : run.indexed + run.failed = jobs.length := by
      rw [all, sane.filed.resultSlots]
    exact { sane with
      tracked := { sane.tracked with }
      filed := { sane.filed with }
      settled := fun _ => Or.inr counted }
  | abandon cancelled =>
    exact { sane with
      tracked := { sane.tracked with }
      filed := { sane.filed with }
      settled := fun _ => Or.inl cancelled }
  | cancel =>
    refine { sane with
      tracked := { sane.tracked with }
      filed := { sane.filed with }
      settled := fun _ => Or.inl rfl
      verdict := fun verdict reached => ?_ }
    rcases sane.verdict verdict reached with ⟨_, stopped⟩ | complete
    · exact Or.inl ⟨rfl, stopped⟩
    · exact Or.inr complete
  | inform _ =>
    exact sane.of_pool sane.sound sane.delivered sane.crew fun _ => Nat.le_refl _
  | conclude _ _ collected _ =>
    refine { sane with
      tracked := { sane.tracked with }
      filed := { sane.filed with }
      verdict := fun verdict reached => ?_ }
    cases reached
    have concluded :
        Concluded contract root options files jobs run.cancelled
          (run.concluded root options files) :=
      sane.filed.concluded numbered named (sane.settled collected)
    exact concluded
  | stop _ =>
    have samePool : ∃ stopped closed cancelled,
        run.pool.stop = { run.pool with stopped, closed, cancelled } := by
      unfold Pool.stop
      split
      · exact ⟨_, _, _, rfl⟩
      · exact ⟨_, _, _, rfl⟩
    obtain ⟨stopped, closed, cancelled, same⟩ := samePool
    rw [same]
    exact sane.of_pool sane.sound sane.delivered sane.crew fun _ => Nat.le_refl _

/-! ## Runs -/

/-- A scan is sane when it starts. -/
theorem sane_start
    {store : Store} (workers : Nat) (numbered : Numbered jobs) (sound : contract.Sound store) :
    (start workers store jobs).Sane contract root options files jobs := by
  have idle : ∀ worker ∈ (start workers store jobs).pool.crew, worker = .idle := by
    intro worker member
    exact List.eq_of_mem_replicate member
  have nothingCarried : ∀ job, (start workers store jobs).underWay job = jobs.count job := by
    intro job
    have crewIdle :
        ((start workers store jobs).pool.crew.map (·.carries job)).sum = 0 := by
      refine List.sum_eq_zero_iff_forall_eq_nat.mpr fun count member => ?_
      obtain ⟨worker, atWork, rfl⟩ := List.mem_map.mp member
      rw [idle worker atWork]
      rfl
    rw [underWay, crewIdle]
    simp [start, Pool.carries, Pool.start, Pool.new]
  have vacantSlot {α : Type} : ∀ job ∈ jobs,
      (jobs.map fun _ => (none : Option α))[job.id.toNat]? = some none := by
    intro job member
    rw [List.getElem?_map, numbered.place_of_mem member]
    rfl
  have noneFilled {α : Type} (place : Nat) (value : α) :
      (jobs.map fun _ => (none : Option α))[place]? ≠ some (some value) := by
    intro held
    obtain ⟨_, _, filled⟩ := List.mem_map.mp (List.mem_of_getElem? held)
    cases filled
  have noneCounted {α : Type} :
      (jobs.map fun _ => (none : Option α)).countP Option.isSome = 0 := by
    simp [List.countP_eq_zero]
  refine ⟨sound, ?_, ?_, ⟨?_, ?_, ?_⟩, ⟨?_, ?_, ?_, ?_, ?_, noneCounted.symm, noneCounted.symm, ?_⟩,
    ?_, ?_⟩
  · intro message member
    simp [start, Pool.start, Pool.new] at member
  · intro worker member
    rw [idle worker member]
    trivial
  · intro job
    rw [nothingCarried]
    exact numbered.count_le_one job
  · intro job positive
    rw [nothingCarried] at positive
    exact List.count_pos_iff.mp positive
  · intro job positive
    rw [nothingCarried] at positive
    have member := List.count_pos_iff.mp positive
    exact ⟨vacantSlot job member, vacantSlot job member⟩
  · simp [start]
  · simp [start]
  · intro job _ result held
    exact absurd held (noneFilled _ result)
  · intro job _ fault held
    exact absurd held (noneFilled _ fault)
  · intro place result held
    exact absurd held (noneFilled place result)
  · exact fun _ => rfl
  · intro stopped
    cases stopped
  · intro verdict reached
    cases reached

/-- What holds of a scan at every point that it can reach. -/
theorem sane_of_reached
    {store : Store} {workers : Nat} {run : Run} (numbered : Numbered jobs)
    (named : jobs.map (·.file) = files) (binds : ∀ job ∈ jobs, contract.Binds job)
    (sound : contract.Sound store)
    (reached : Relation.ReflTransGen (Step root options files) (start workers store jobs) run) :
    run.Sane contract root options files jobs := by
  induction reached with
  | refl => exact sane_start workers numbered sound
  | tail _ step inductionHypothesis => exact inductionHypothesis.step numbered named binds step

end Run

/-! ## What a scan can return -/

theorem jobsOf_numbered (root : String) (files : List String) : Numbered (jobsOf root files) := by
  intro place job found
  simp only [jobsOf, List.getElem?_map, List.getElem?_zipIdx, Option.map_map,
    Option.map_eq_some_iff] at found
  obtain ⟨file, _, rfl⟩ := found
  simp [jobOf]

@[simp]
theorem jobsOf_files (root : String) (files : List String) :
    (jobsOf root files).map (·.file) = files := by
  simp only [jobsOf, List.map_map]
  exact List.zipIdx_map_fst 0 files

/-- A scan returns what messages that keep the contract give, or a fault from before or beside its
jobs, and leaves the store in order. -/
theorem Builds.concluded
    {cache after : Option Cache.Result} {settings : Extraction.Settings} {tree : FileTree}
    {cancelled : Bool} {verdict : Verdict}
    (builds : Builds cache settings tree root options cancelled verdict after)
    (sound : contract.Sound (freshStore settings tree cache))
    (binds : ∀ files, discovered tree root options = .ok files →
      ∀ job ∈ jobsOf root files, contract.Binds job) :
    ((∃ fault, discovered tree root options = .error fault ∧
        verdict = .failed (.during .discovery fault)) ∨
      ∃ files, discovered tree root options = .ok files ∧
        Run.Concluded contract root options files (jobsOf root files) cancelled verdict) ∧
    ∃ store, contract.Sound store ∧ store.results = after := by
  cases builds with
  | undiscovered found => exact ⟨Or.inl ⟨_, found, rfl⟩, _, sound, rfl⟩
  | empty found =>
    refine ⟨Or.inr ⟨[], found, Or.inr ⟨[], 0, rfl, ?_, rfl, fun _ => rfl⟩⟩, _, sound, rfl⟩
    simp
  | scanned found _ reached returned =>
    have sane := Run.sane_of_reached (jobsOf_numbered root _) (jobsOf_files root _)
      (binds _ found) sound reached
    exact ⟨Or.inr ⟨_, found, sane.verdict verdict returned.concluded⟩, _, sane.sound, rfl⟩

end ImportAudit.Scan
