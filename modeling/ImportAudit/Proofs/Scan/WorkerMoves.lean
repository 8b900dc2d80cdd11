import ImportAudit.Proofs.Scan.Concurrent
import Mathlib.Data.List.Count

/-!
# Moves of workers

What any move of a worker does, also in a cancelled pool: the contract that binds its job is kept,
and the job is passed on or dropped, never multiplied.
-/

namespace ImportAudit.Scan

variable {contract : Contract}

def Worker.job? : Worker → Option Job
  | .idle => none
  | .holding job => some job
  | .reading job _ => some job
  | .keeping job _ _ => some job
  | .finished message => some message.job
  | .sending message => some message.job
  | .gone => none

def Worker.carries (worker : Worker) (job : Job) : Nat :=
  worker.job?.toList.count job

/-- How often a job is in the queue or in a channel. -/
def Pool.carries (pool : Pool) (job : Job) : Nat :=
  pool.queue.count job + (pool.results.map (·.job)).count job +
    (pool.faults.map (·.job)).count job

/-- What the contract says of a worker. -/
def Contract.Holds (contract : Contract) : Worker → Prop
  | .reading job stamp => contract.Stamped job stamp
  | .keeping job stamp result =>
    contract.Stamped job stamp ∧ contract.Brings job (.ok (result, false))
  | .finished message => contract.Brings message.job message.outcome
  | .sending message => contract.Brings message.job message.outcome
  | _ => True

/-- The messages in the channels keep the contract. -/
def Contract.Delivered (contract : Contract) (pool : Pool) : Prop :=
  ∀ message ∈ pool.results ++ pool.faults, contract.Brings message.job message.outcome

/-- A move keeps the contract and passes jobs on without multiplying them. -/
structure Pool.Passes (contract : Contract) (pool : Pool) (worker : Worker) (after : Pool)
    (next : Worker) : Prop where
  sound : contract.Sound after.store
  delivered : contract.Delivered after
  holds : contract.Holds next
  carried : ∀ job, after.carries job + next.carries job ≤ pool.carries job + worker.carries job

/-- A worker that changes nothing but the store keeps the contract if the store does. -/
theorem Pool.passes_of_store
    {pool : Pool} {worker next : Worker} (delivered : contract.Delivered pool) {store : Store}
    (sound : contract.Sound store) (holds : contract.Holds next)
    (sameJob : next.job? = worker.job?) :
    pool.Passes contract worker { pool with store } next where
  sound := sound
  delivered := delivered
  holds := holds
  carried := fun job => by
    simp only [Pool.carries, Worker.carries, sameJob]
    exact Nat.le_refl _

/-- Delivering a message keeps the contract. -/
theorem Pool.deliver?_passes
    {pool after : Pool} {message : Message} (sound : contract.Sound pool.store)
    (delivered : contract.Delivered pool) (brings : contract.Brings message.job message.outcome)
    (room : pool.deliver? message = some after) :
    pool.Passes contract (.sending message) after .idle := by
  have added :
      ∀ other, other ∈ pool.results ++ pool.faults ∨ other = message →
        contract.Brings other.job other.outcome := by
    rintro other (earlier | rfl)
    · exact delivered other earlier
    · exact brings
  unfold Pool.deliver? at room
  cases outcome : message.outcome with
  | ok found =>
    simp only [outcome, Option.ite_none_right_eq_some, Option.some.injEq] at room
    obtain ⟨_, rfl⟩ := room
    refine ⟨sound, fun other member => added other ?_, trivial, fun job => ?_⟩
    · simp only [List.mem_append, List.mem_singleton] at member ⊢
      tauto
    · simp only [Pool.carries, Worker.carries, Worker.job?, List.map_append, List.map_cons,
        List.map_nil, List.count_append, Option.toList_some, Option.toList_none, List.count_nil]
      omega
  | error fault =>
    simp only [outcome, Option.ite_none_right_eq_some, Option.some.injEq] at room
    obtain ⟨_, rfl⟩ := room
    refine ⟨sound, fun other member => added other ?_, trivial, fun job => ?_⟩
    · simp only [List.mem_append, List.mem_singleton] at member ⊢
      tauto
    · simp only [Pool.carries, Worker.carries, Worker.job?, List.map_append, List.map_cons,
        List.map_nil, List.count_append, Option.toList_some, Option.toList_none, List.count_nil]
      omega

theorem Pool.take_passes
    {pool : Pool} {job : Job} {rest : List Job} (sound : contract.Sound pool.store)
    (delivered : contract.Delivered pool) (queued : pool.queue = job :: rest) :
    pool.Passes contract .idle { pool with queue := rest } (.holding job) := by
  refine ⟨sound, delivered, trivial, fun other => ?_⟩
  simp only [Pool.carries, Worker.carries, Worker.job?, queued, Option.toList_some,
    Option.toList_none, List.count_cons, List.count_nil]
  omega

theorem Pool.leave_passes
    {pool : Pool} {worker next : Worker} (sound : contract.Sound pool.store)
    (delivered : contract.Delivered pool) (holds : contract.Holds next)
    (noJob : next.job? = none) :
    pool.Passes contract worker pool next := by
  refine ⟨sound, delivered, holds, fun job => ?_⟩
  simp only [Worker.carries, noJob, Option.toList_none, List.count_nil]
  omega

theorem Pool.count_eq (pool : Pool) (message : Message) :
    (pool.count message).store = pool.store ∧ (pool.count message).queue = pool.queue ∧
      (pool.count message).results = pool.results ∧
        (pool.count message).faults = pool.faults := by
  unfold Pool.count
  cases message.outcome <;> exact ⟨rfl, rfl, rfl, rfl⟩

theorem Pool.countHit_eq (pool : Pool) (outcome : Except Fault (Extraction × Bool)) :
    (pool.countHit outcome).store = pool.store ∧ (pool.countHit outcome).queue = pool.queue ∧
      (pool.countHit outcome).results = pool.results ∧
        (pool.countHit outcome).faults = pool.faults := by
  unfold Pool.countHit
  split <;> exact ⟨rfl, rfl, rfl, rfl⟩

/-- Counts do not matter to the contract. -/
theorem Pool.Passes.of_counts
    {pool after counted : Pool} {worker next : Worker}
    (passes : pool.Passes contract worker after next)
    (same : counted.store = after.store ∧ counted.queue = after.queue ∧
      counted.results = after.results ∧ counted.faults = after.faults) :
    pool.Passes contract worker counted next := by
  obtain ⟨sameStore, sameQueue, sameResults, sameFaults⟩ := same
  refine ⟨sameStore ▸ passes.sound, ?_, passes.holds, fun job => ?_⟩
  · unfold Contract.Delivered
    rw [sameResults, sameFaults]
    exact passes.delivered
  · have carried := passes.carried job
    simpa only [Pool.carries, sameQueue, sameResults, sameFaults] using carried

/-- Whatever a worker does next, it keeps a contract that binds its job. -/
theorem Pool.Moves.passes
    {pool after : Pool} {worker next : Worker} (moves : pool.Moves worker after next)
    (binds : ∀ job, worker.job? = some job → contract.Binds job)
    (sound : contract.Sound pool.store) (delivered : contract.Delivered pool)
    (holds : contract.Holds worker) :
    pool.Passes contract worker after next := by
  cases moves with
  | takes _ queued => exact Pool.take_passes sound delivered queued
  | drops _ => exact Pool.leave_passes sound delivered trivial rfl
  | regular moved =>
    cases worker with
    | idle =>
      simp only [Pool.move?] at moved
      by_cases cancelled : pool.cancelled = true
      · simp only [cancelled, if_true, Option.some.injEq, Prod.mk.injEq] at moved
        obtain ⟨rfl, rfl⟩ := moved
        exact Pool.leave_passes sound delivered trivial rfl
      · rw [if_neg cancelled] at moved
        cases queued : pool.queue with
        | cons job rest =>
          simp only [queued, Option.some.injEq, Prod.mk.injEq] at moved
          obtain ⟨rfl, rfl⟩ := moved
          exact Pool.take_passes sound delivered queued
        | nil =>
          simp only [queued, Option.ite_none_right_eq_some, Option.some.injEq,
            Prod.mk.injEq] at moved
          obtain ⟨_, rfl, rfl⟩ := moved
          exact Pool.leave_passes sound delivered trivial rfl
    | holding job =>
      have bound := binds job rfl
      rcases looked : job.look pool.store with ⟨outcome | stamp, store⟩
      · obtain ⟨soundAfter, brings⟩ := bound.settled sound looked
        simp only [Pool.move?, looked, Option.some.injEq, Prod.mk.injEq] at moved
        obtain ⟨rfl, rfl⟩ := moved
        have uncounted :
            pool.Passes contract (.holding job) { pool with store } (.finished ⟨job, outcome⟩) :=
          Pool.passes_of_store delivered soundAfter brings rfl
        exact uncounted.of_counts (Pool.countHit_eq _ outcome)
      · obtain ⟨soundAfter, stamped⟩ := bound.unread sound looked
        simp only [Pool.move?, looked, Option.some.injEq, Prod.mk.injEq] at moved
        obtain ⟨rfl, rfl⟩ := moved
        exact Pool.passes_of_store delivered soundAfter stamped rfl
    | reading job stamp =>
      have bound := binds job rfl
      rcases extracted : job.extract pool.store with ⟨fault | result, store, log⟩
      · obtain ⟨soundAfter, brings⟩ := bound.failed sound holds extracted
        simp only [Pool.move?, extracted, Option.some.injEq, Prod.mk.injEq] at moved
        obtain ⟨rfl, rfl⟩ := moved
        exact Pool.passes_of_store delivered soundAfter brings rfl
      · obtain ⟨soundAfter, brings⟩ := bound.extracted sound holds extracted
        simp only [Pool.move?, extracted, Option.some.injEq, Prod.mk.injEq] at moved
        obtain ⟨rfl, rfl⟩ := moved
        exact Pool.passes_of_store delivered soundAfter ⟨holds, brings⟩ rfl
    | keeping job stamp result =>
      obtain ⟨stamped, brings⟩ := holds
      simp only [Pool.move?, Option.some.injEq, Prod.mk.injEq] at moved
      obtain ⟨rfl, rfl⟩ := moved
      exact Pool.passes_of_store delivered ((binds job rfl).kept sound stamped brings) brings rfl
    | finished message =>
      simp only [Pool.move?, Option.some.injEq, Prod.mk.injEq] at moved
      obtain ⟨rfl, rfl⟩ := moved
      have unchanged : pool.Passes contract (.finished message) pool (.sending message) :=
        ⟨sound, delivered, holds, fun _ => Nat.le_refl _⟩
      exact unchanged.of_counts (pool.count_eq message)
    | sending message =>
      simp only [Pool.move?] at moved
      cases room : pool.deliver? message with
      | some delivery =>
        simp only [room, Option.some.injEq, Prod.mk.injEq] at moved
        obtain ⟨rfl, rfl⟩ := moved
        exact Pool.deliver?_passes sound delivered holds room
      | none =>
        simp only [room, Option.ite_none_right_eq_some, Option.some.injEq,
          Prod.mk.injEq] at moved
        obtain ⟨_, rfl, rfl⟩ := moved
        exact Pool.leave_passes sound delivered trivial rfl
    | gone => simp [Pool.move?] at moved

end ImportAudit.Scan
