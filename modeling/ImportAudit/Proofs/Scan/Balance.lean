import ImportAudit.Proofs.Scan.WorkerMoves

/-!
# The balance of a move

What a move of a worker adds to the counts of the pool and takes from the places where jobs are. A
job that was taken is counted once, as processed or as failed, before its message is sent, and a
job is lost only by a pool that is cancelled.
-/

namespace ImportAudit.Scan

/-- Whether a worker has taken a job and not counted it yet. -/
def Worker.uncounted : Worker → Bool
  | .holding _ => true
  | .reading _ _ => true
  | .keeping _ _ _ => true
  | .finished _ => true
  | _ => false

def Message.hit (message : Message) : Bool :=
  match message.outcome with
  | .ok (_, cached) => cached
  | .error _ => false

/-- Whether a worker has counted a hit of the cache and not yet the job. -/
def Worker.hit : Worker → Bool
  | .finished message => message.hit
  | _ => false

/-- What a move of a worker can be, also in a cancelled pool. -/
inductive Pool.Shift (pool : Pool) : Worker → Pool → Worker → Prop
  | take {job : Job} {rest : List Job} (queued : pool.queue = job :: rest) :
      pool.Shift .idle { pool with queue := rest } (.holding job)
  | leave (nothing : pool.cancelled = true ∨ (pool.closed = true ∧ pool.queue = [])) :
      pool.Shift .idle pool .gone
  | settle {job : Job} (outcome : Except Fault (Extraction × Bool)) (store : Store) :
      pool.Shift (.holding job) ({ pool with store }.countHit outcome) (.finished ⟨job, outcome⟩)
  | look (job : Job) (stamp : Option Stamp) (store : Store) :
      pool.Shift (.holding job) { pool with store } (.reading job stamp)
  | extract (job : Job) (stamp : Option Stamp) (result : Extraction) (store : Store) :
      pool.Shift (.reading job stamp) { pool with store } (.keeping job stamp result)
  | fail (job : Job) (stamp : Option Stamp) (fault : Fault) (store : Store) :
      pool.Shift (.reading job stamp) { pool with store } (.finished ⟨job, .error fault⟩)
  | keep (job : Job) (stamp : Option Stamp) (result : Extraction) (store : Store) :
      pool.Shift (.keeping job stamp result) { pool with store }
        (.finished ⟨job, .ok (result, false)⟩)
  | count (message : Message) :
      pool.Shift (.finished message) (pool.count message) (.sending message)
  | deliver {message : Message} {after : Pool} (room : pool.deliver? message = some after) :
      pool.Shift (.sending message) after .idle
  | drop {message : Message} (cancelled : pool.cancelled = true) :
      pool.Shift (.sending message) pool .idle

/-- There are no other moves, also in a cancelled pool. -/
theorem Pool.Moves.shift
    {pool after : Pool} {worker next : Worker} (moves : pool.Moves worker after next) :
    pool.Shift worker after next := by
  cases moves with
  | takes _ queued => exact .take queued
  | drops cancelled => exact .drop cancelled
  | regular moved =>
    cases worker with
    | idle =>
      simp only [Pool.move?] at moved
      by_cases cancelled : pool.cancelled = true
      · simp only [cancelled, if_true, Option.some.injEq, Prod.mk.injEq] at moved
        obtain ⟨rfl, rfl⟩ := moved
        exact .leave (Or.inl cancelled)
      · rw [if_neg cancelled] at moved
        cases queued : pool.queue with
        | cons job rest =>
          simp only [queued, Option.some.injEq, Prod.mk.injEq] at moved
          obtain ⟨rfl, rfl⟩ := moved
          exact .take queued
        | nil =>
          simp only [queued, Option.ite_none_right_eq_some, Option.some.injEq,
            Prod.mk.injEq] at moved
          obtain ⟨closed, rfl, rfl⟩ := moved
          exact .leave (Or.inr ⟨closed, queued⟩)
    | holding job =>
      rcases looked : job.look pool.store with ⟨outcome | stamp, store⟩
      · simp only [Pool.move?, looked, Option.some.injEq, Prod.mk.injEq] at moved
        obtain ⟨rfl, rfl⟩ := moved
        exact .settle outcome store
      · simp only [Pool.move?, looked, Option.some.injEq, Prod.mk.injEq] at moved
        obtain ⟨rfl, rfl⟩ := moved
        exact .look job stamp store
    | reading job stamp =>
      rcases extracted : job.extract pool.store with ⟨fault | result, store, log⟩
      · simp only [Pool.move?, extracted, Option.some.injEq, Prod.mk.injEq] at moved
        obtain ⟨rfl, rfl⟩ := moved
        exact .fail job stamp fault store
      · simp only [Pool.move?, extracted, Option.some.injEq, Prod.mk.injEq] at moved
        obtain ⟨rfl, rfl⟩ := moved
        exact .extract job stamp result store
    | keeping job stamp result =>
      simp only [Pool.move?, Option.some.injEq, Prod.mk.injEq] at moved
      obtain ⟨rfl, rfl⟩ := moved
      exact .keep job stamp result _
    | finished message =>
      simp only [Pool.move?, Option.some.injEq, Prod.mk.injEq] at moved
      obtain ⟨rfl, rfl⟩ := moved
      exact .count message
    | sending message =>
      simp only [Pool.move?] at moved
      cases room : pool.deliver? message with
      | some delivery =>
        simp only [room, Option.some.injEq, Prod.mk.injEq] at moved
        obtain ⟨rfl, rfl⟩ := moved
        exact .deliver room
      | none =>
        simp only [room, Option.ite_none_right_eq_some, Option.some.injEq,
          Prod.mk.injEq] at moved
        obtain ⟨cancelled, rfl, rfl⟩ := moved
        exact .drop cancelled
    | gone => simp [Pool.move?] at moved

/-- What a worker cannot change about its pool. -/
structure Pool.SameCourse (pool after : Pool) : Prop where
  workers : after.workers = pool.workers
  started : after.started = pool.started
  stopped : after.stopped = pool.stopped
  closed : after.closed = pool.closed
  cancelled : after.cancelled = pool.cancelled
  submitted : after.submitted = pool.submitted

/-- The counts and the jobs before and after a move. -/
structure Pool.Balanced (pool : Pool) (worker : Worker) (after : Pool) (next : Worker) : Prop where
  course : pool.SameCourse after
  jobs : after.queue.length + next.uncounted.toNat + after.processed + after.failed =
    pool.queue.length + worker.uncounted.toNat + pool.processed + pool.failed
  hits : after.cacheHits + pool.processed + worker.hit.toNat ≤
    pool.cacheHits + after.processed + next.hit.toNat
  carried : ∃ lost : List Job, (pool.cancelled = false → lost = []) ∧
    ∀ job, after.carries job + next.carries job + lost.count job =
      pool.carries job + worker.carries job
  emptied : pool.queue = [] → after.queue = []
  here : worker ≠ .gone
  gone : next = .gone → pool.cancelled = true ∨ (pool.closed = true ∧ pool.queue = [])

variable {pool after : Pool} {worker next : Worker}

theorem Pool.count_course (pool : Pool) (message : Message) :
    pool.SameCourse (pool.count message) := by
  unfold Pool.count
  split <;> exact ⟨rfl, rfl, rfl, rfl, rfl, rfl⟩

theorem Pool.count_adds (pool : Pool) (message : Message) :
    (pool.count message).processed + (pool.count message).failed =
        pool.processed + pool.failed + 1 ∧
      (pool.count message).cacheHits + pool.processed + (Worker.finished message).hit.toNat ≤
        pool.cacheHits + (pool.count message).processed := by
  obtain ⟨job, outcome⟩ := message
  cases outcome with
  | ok found =>
    obtain ⟨result, cached⟩ := found
    have atMostOne := Bool.toNat_le cached
    simp only [Pool.count, Worker.hit, Message.hit]
    omega
  | error fault =>
    simp only [Pool.count, Worker.hit, Message.hit, Bool.toNat_false]
    omega

theorem Pool.countHit_course (pool : Pool) (outcome : Except Fault (Extraction × Bool)) :
    pool.SameCourse (pool.countHit outcome) := by
  unfold Pool.countHit
  split <;> exact ⟨rfl, rfl, rfl, rfl, rfl, rfl⟩

theorem Pool.countHit_adds (pool : Pool) (job : Job) (outcome : Except Fault (Extraction × Bool)) :
    (pool.countHit outcome).processed = pool.processed ∧
      (pool.countHit outcome).failed = pool.failed ∧
      (pool.countHit outcome).cacheHits =
        pool.cacheHits + (Worker.finished ⟨job, outcome⟩).hit.toNat := by
  unfold Pool.countHit
  split
  · exact ⟨rfl, rfl, rfl⟩
  · rename_i uncached
    refine ⟨rfl, rfl, ?_⟩
    cases outcome with
    | error => rfl
    | ok found =>
      obtain ⟨result, cached⟩ := found
      cases cached with
      | true => exact absurd rfl (uncached result)
      | false => rfl

/-- A message that is delivered is in its channel, and nothing else has changed. -/
theorem Pool.deliver?_eq
    {message : Message} (room : pool.deliver? message = some after) :
    after = { pool with results := pool.results ++ [message] } ∨
      after = { pool with faults := pool.faults ++ [message] } := by
  unfold Pool.deliver? at room
  split at room
  · simp only [Option.ite_none_right_eq_some, Option.some.injEq] at room
    exact Or.inl room.2.symm
  · simp only [Option.ite_none_right_eq_some, Option.some.injEq] at room
    exact Or.inr room.2.symm

theorem Pool.deliver?_carries
    {message : Message} (room : pool.deliver? message = some after) (job : Job) :
    after.carries job = pool.carries job + (Worker.sending message).carries job := by
  rcases Pool.deliver?_eq room with rfl | rfl
  · simp only [Pool.carries, Worker.carries, Worker.job?, List.map_append, List.map_cons,
      List.map_nil, List.count_append, Option.toList_some]
    omega
  · simp only [Pool.carries, Worker.carries, Worker.job?, List.map_append, List.map_cons,
      List.map_nil, List.count_append, Option.toList_some]
    omega

theorem Pool.deliver?_course
    {message : Message} (room : pool.deliver? message = some after) :
    pool.SameCourse after ∧ after.queue = pool.queue ∧ after.processed = pool.processed ∧
      after.failed = pool.failed ∧ after.cacheHits = pool.cacheHits := by
  rcases Pool.deliver?_eq room with rfl | rfl <;>
    exact ⟨⟨rfl, rfl, rfl, rfl, rfl, rfl⟩, rfl, rfl, rfl, rfl⟩

/-- A worker that is at the same job as before, and leaves the queue and the channels alone, loses
no job. -/
theorem Pool.carried_of_sameJob
    (sameQueue : after.queue = pool.queue) (sameResults : after.results = pool.results)
    (sameFaults : after.faults = pool.faults) (sameJob : next.job? = worker.job?) :
    ∃ lost : List Job, (pool.cancelled = false → lost = []) ∧
      ∀ job, after.carries job + next.carries job + lost.count job =
        pool.carries job + worker.carries job := by
  refine ⟨[], fun _ => rfl, fun job => ?_⟩
  rw [Pool.carries, Pool.carries, Worker.carries, Worker.carries, sameQueue, sameResults,
    sameFaults, sameJob]
  rfl

theorem Pool.balanced_take
    {job : Job} {rest : List Job} (queued : pool.queue = job :: rest) :
    pool.Balanced .idle { pool with queue := rest } (.holding job) where
  course := ⟨rfl, rfl, rfl, rfl, rfl, rfl⟩
  jobs := by
    rw [queued]
    rfl
  hits := Nat.le_refl _
  carried := by
    refine ⟨[], fun _ => rfl, fun other => ?_⟩
    simp only [Pool.carries, Worker.carries, Worker.job?, queued, Option.toList_some,
      Option.toList_none, List.count_cons, List.count_nil]
    omega
  emptied := fun empty => by
    rw [queued] at empty
    cases empty
  here := Worker.noConfusion
  gone := Worker.noConfusion

/-- A worker that goes on with its job changes nothing but the store. -/
theorem Pool.balanced_work
    (worker next : Worker) (sameJob : next.job? = worker.job?)
    (uncounted : worker.uncounted = true) (stillUncounted : next.uncounted = true)
    (unhit : worker.hit = false) (stillUnhit : next.hit = false) (store : Store) :
    pool.Balanced worker { pool with store } next where
  course := ⟨rfl, rfl, rfl, rfl, rfl, rfl⟩
  jobs := by rw [uncounted, stillUncounted]
  hits := Nat.le_of_eq (by rw [unhit, stillUnhit])
  carried := Pool.carried_of_sameJob rfl rfl rfl sameJob
  emptied := fun empty => empty
  here := fun isGone => by
    rw [isGone] at uncounted
    cases uncounted
  gone := fun isGone => by
    rw [isGone] at stillUncounted
    cases stillUncounted

/-- Every move keeps the balance of counts and jobs. -/
theorem Pool.Shift.balanced (shift : pool.Shift worker after next) :
    pool.Balanced worker after next := by
  cases shift with
  | take queued => exact Pool.balanced_take queued
  | leave nothing =>
    exact
      { course := ⟨rfl, rfl, rfl, rfl, rfl, rfl⟩
        jobs := rfl
        hits := Nat.le_refl _
        carried := Pool.carried_of_sameJob rfl rfl rfl rfl
        emptied := fun empty => empty
        here := Worker.noConfusion
        gone := fun _ => nothing }
  | @settle job outcome store =>
    have adds := Pool.countHit_adds { pool with store } job outcome
    have same := Pool.countHit_eq { pool with store } outcome
    have course := Pool.countHit_course { pool with store } outcome
    exact
      { course := ⟨course.1, course.2, course.3, course.4, course.5, course.6⟩
        jobs := by
          rw [same.2.1, adds.1, adds.2.1]
          rfl
        hits := by
          rw [adds.1, adds.2.2]
          simp only [Worker.hit, Bool.toNat_false]
          omega
        carried := Pool.carried_of_sameJob same.2.1 same.2.2.1 same.2.2.2 rfl
        emptied := fun empty => same.2.1.trans empty
        here := Worker.noConfusion
        gone := Worker.noConfusion }
  | look job stamp store =>
    exact Pool.balanced_work (.holding job) (.reading job stamp) rfl rfl rfl rfl rfl
      store
  | extract job stamp result store =>
    exact Pool.balanced_work (.reading job stamp) (.keeping job stamp result) rfl rfl rfl rfl rfl
      store
  | fail job stamp fault store =>
    exact Pool.balanced_work (.reading job stamp) (.finished ⟨job, .error fault⟩) rfl rfl rfl rfl
      rfl store
  | keep job stamp result store =>
    exact Pool.balanced_work (.keeping job stamp result)
      (.finished ⟨job, .ok (result, false)⟩) rfl rfl rfl rfl rfl
      store
  | count message =>
    have adds := Pool.count_adds pool message
    have same := Pool.count_eq pool message
    exact
      { course := Pool.count_course pool message
        jobs := by
          rw [same.2.1]
          simp only [Worker.uncounted, Bool.toNat_true, Bool.toNat_false]
          omega
        hits := adds.2
        carried := Pool.carried_of_sameJob same.2.1 same.2.2.1 same.2.2.2 rfl
        emptied := fun empty => same.2.1.trans empty
        here := Worker.noConfusion
        gone := Worker.noConfusion }
  | deliver room =>
    obtain ⟨course, sameQueue, sameProcessed, sameFailed, sameHits⟩ := Pool.deliver?_course room
    exact
      { course := course
        jobs := by
          rw [sameQueue, sameProcessed, sameFailed]
          rfl
        hits := Nat.le_of_eq (by rw [sameProcessed, sameHits]; rfl)
        carried := ⟨[], fun _ => rfl, fun job => by rw [Pool.deliver?_carries room]; rfl⟩
        emptied := fun empty => sameQueue.trans empty
        here := Worker.noConfusion
        gone := Worker.noConfusion }
  | @drop message cancelled =>
    exact
      { course := ⟨rfl, rfl, rfl, rfl, rfl, rfl⟩
        jobs := rfl
        hits := Nat.le_refl _
        carried := by
          refine ⟨[message.job], fun running => ?_, fun job => ?_⟩
          · rw [cancelled] at running
            cases running
          · simp only [Worker.carries, Worker.job?, Option.toList_some, Option.toList_none,
              List.count_nil]
            omega
        emptied := fun empty => empty
        here := Worker.noConfusion
        gone := Worker.noConfusion }

end ImportAudit.Scan
