import ImportAudit.Proofs.Places
import ImportAudit.Proofs.Scan.Balance

/-!
# No job is lost

A pool in use. Submitters count a job, then wait for room in the queue; workers move; messages are
received; the work is finished, cancelled or stopped, and stopping takes several steps. Any of
these may come next, also while the files change. Three orders are left out: a pool is not started
once it is stopped, no job is submitted once the work is finished, and it is neither finished nor
stopped while a submitter waits.

Each job that was counted is in exactly one place, and each job that was accepted brings at most
one message; it brings one if nobody cancels. Nothing is ever sent to a channel that is closed.
-/

namespace ImportAudit.Scan

/-- How far stopping has come: the pool is marked as stopped, its queue is closed, the work is
cancelled, and once the workers are gone the channel of results and then that of faults are
closed. -/
inductive Stopping
  | running
  | marked
  | finished
  | cancelled
  | resultsClosed
  | faultsClosed

namespace Stopping

def closesResults : Stopping → Bool
  | resultsClosed => true
  | faultsClosed => true
  | _ => false

def closesFaults : Stopping → Bool
  | faultsClosed => true
  | _ => false

end Stopping

/-- A pool in use: how far stopping it has come, the jobs whose submitters wait, those that were
refused because of a cancellation, those that were accepted, and the messages received. -/
structure Traffic where
  pool : Pool
  stopping : Stopping
  blocked : List Job
  refused : List Job
  accepted : List Job
  received : List Message

namespace Traffic

def of (pool : Pool) : Traffic := ⟨pool, .running, [], [], [], []⟩

def produced (traffic : Traffic) : List Message :=
  traffic.pool.results ++ traffic.pool.faults ++ traffic.received

def Left (traffic : Traffic) : Prop :=
  ∀ worker ∈ traffic.pool.crew, worker = .gone

/-- One step around a pool, by a worker or by anyone who submits, receives, cancels or stops. A
submission counts before it waits for room, and stopping takes several steps. -/
inductive Step : Traffic → Traffic → Prop
  | start {traffic : Traffic} (runs : traffic.pool.stopped = false) :
      Step traffic { traffic with pool := traffic.pool.start }
  | turnAway {traffic : Traffic} {job : Job} {fault : Fault}
      (refused : traffic.pool.submit job = .refused traffic.pool fault) : Step traffic traffic
  | submit {traffic : Traffic} (job : Job) (runs : traffic.pool.stopped = false)
      (opened : traffic.pool.closed = false) :
      Step traffic
        { traffic with
          pool := { traffic.pool with submitted := traffic.pool.submitted + 1 }
          blocked := job :: traffic.blocked }
  | accept {traffic : Traffic} {before after : List Job} {job : Job}
      (blocked : traffic.blocked = before ++ job :: after)
      (room : traffic.pool.queue.length < traffic.pool.queueLimit) :
      Step traffic
        { traffic with
          pool := { traffic.pool with queue := traffic.pool.queue ++ [job] }
          blocked := before ++ after
          accepted := traffic.accepted ++ [job] }
  | refuse {traffic : Traffic} {before after : List Job} {job : Job}
      (blocked : traffic.blocked = before ++ job :: after)
      (cancelled : traffic.pool.cancelled = true) :
      Step traffic
        { traffic with
          blocked := before ++ after
          refused := traffic.refused ++ [job] }
  | work {traffic : Traffic} {pool : Pool} {before after : List Worker} {worker next : Worker}
      (crew : traffic.pool.crew = before ++ worker :: after)
      (moves : traffic.pool.Moves worker pool next) :
      Step traffic { traffic with pool := { pool with crew := before ++ next :: after } }
  | receiveResult {traffic : Traffic} {message : Message} {rest : List Message}
      (arrived : traffic.pool.results = message :: rest) :
      Step traffic
        { traffic with
          pool := { traffic.pool with results := rest }
          received := traffic.received ++ [message] }
  | receiveFault {traffic : Traffic} {message : Message} {rest : List Message}
      (arrived : traffic.pool.faults = message :: rest) :
      Step traffic
        { traffic with
          pool := { traffic.pool with faults := rest }
          received := traffic.received ++ [message] }
  | finish {traffic : Traffic} (nobody : traffic.blocked = []) :
      Step traffic { traffic with pool := traffic.pool.finish }
  | cancel {traffic : Traffic} : Step traffic { traffic with pool := traffic.pool.cancel }
  | stop {traffic : Traffic} (nobody : traffic.blocked = [])
      (runs : traffic.pool.stopped = false) :
      Step traffic
        { traffic with pool := { traffic.pool with stopped := true }, stopping := .marked }
  | stopAgain {traffic : Traffic} (stopped : traffic.pool.stopped = true) :
      Step traffic { traffic with pool := traffic.pool.stop }
  | stopFinish {traffic : Traffic} (reached : traffic.stopping = .marked) :
      Step traffic { traffic with pool := traffic.pool.finish, stopping := .finished }
  | stopCancel {traffic : Traffic} (reached : traffic.stopping = .finished) :
      Step traffic { traffic with pool := traffic.pool.cancel, stopping := .cancelled }
  | stopResults {traffic : Traffic} (reached : traffic.stopping = .cancelled)
      (left : traffic.Left) : Step traffic { traffic with stopping := .resultsClosed }
  | stopFaults {traffic : Traffic} (reached : traffic.stopping = .resultsClosed) :
      Step traffic { traffic with stopping := .faultsClosed }
  | outside {traffic : Traffic} (store : Store) :
      Step traffic { traffic with pool := { traffic.pool with store } }

variable {traffic next : Traffic}

/-! ## Submitting and stopping undisturbed -/

/-- What submitting a job comes to. A pool that is stopped has not even counted it. -/
def submitted (traffic : Traffic) (job : Job) : Traffic :=
  match traffic.pool.submit job with
  | .accepted pool => { traffic with pool, accepted := traffic.accepted ++ [job] }
  | .refused pool _ =>
    { traffic with
      pool
      refused := if traffic.pool.stopped then traffic.refused else traffic.refused ++ [job] }
  | .blocked pool => { traffic with pool, blocked := job :: traffic.blocked }

theorem steps_submitted (job : Job)
    (opened : traffic.pool.stopped = true ∨ traffic.pool.closed = false) :
    Relation.ReflTransGen Step traffic (traffic.submitted job) := by
  unfold submitted Pool.submit
  by_cases stopped : traffic.pool.stopped = true
  · rw [if_pos stopped]
    dsimp only
    rw [if_pos stopped]
  · have begun : Relation.ReflTransGen Step traffic _ :=
      .single (.submit job (Bool.eq_false_iff.mpr stopped) (opened.resolve_left stopped))
    rw [if_neg stopped]
    by_cases cancelled : traffic.pool.cancelled = true
    · rw [if_pos cancelled]
      dsimp only
      rw [if_neg stopped]
      exact begun.tail (@Step.refuse _ [] _ _ rfl cancelled)
    · rw [if_neg cancelled]
      by_cases room : traffic.pool.queue.length < traffic.pool.queueLimit
      · dsimp only
        rw [if_pos room]
        exact begun.tail (@Step.accept _ [] _ _ rfl room)
      · dsimp only
        rw [if_neg room]
        exact begun

theorem steps_stopped
    (nobody : traffic.blocked = []) (runs : traffic.pool.stopped = false) :
    Relation.ReflTransGen Step traffic
      { traffic with pool := traffic.pool.stop, stopping := .cancelled } := by
  rw [Pool.stop, if_neg (Bool.eq_false_iff.mp runs)]
  have marked : Relation.ReflTransGen Step traffic _ := .single (.stop nobody runs)
  exact (marked.tail (.stopFinish rfl)).tail (.stopCancel rfl)

/-! ## What every step keeps -/

/-- How often a job is in the queue, with a worker, or in a message. -/
def carries (traffic : Traffic) (job : Job) : Nat :=
  traffic.pool.carries job + (traffic.pool.crew.filterMap Worker.job?).count job +
    (traffic.received.map (·.job)).count job

/-- What holds around a pool in every state, for each of its counts and channels. -/
structure Sound (traffic : Traffic) : Prop where
  submitted : traffic.pool.submitted =
    traffic.pool.queue.length + traffic.pool.crew.countP Worker.uncounted +
      traffic.pool.processed + traffic.pool.failed +
        (traffic.blocked.length + traffic.refused.length)
  hits : traffic.pool.cacheHits ≤ traffic.pool.processed + traffic.pool.crew.countP Worker.hit
  carried : ∃ lost : List Job, (traffic.pool.cancelled = false → lost = []) ∧
    ∀ job, traffic.accepted.count job = traffic.carries job + lost.count job
  able : 0 < traffic.pool.workers
  manned : traffic.pool.started = true → traffic.pool.crew.length = traffic.pool.workers
  unmanned : traffic.pool.started = false → traffic.pool.crew = []
  emptied : .gone ∈ traffic.pool.crew →
    traffic.pool.cancelled = true ∨ (traffic.pool.closed = true ∧ traffic.pool.queue = [])
  closed : traffic.pool.closed = true → traffic.blocked = []
  stopped : traffic.pool.stopped = true → traffic.blocked = []
  marked : traffic.stopping ≠ .running → traffic.pool.stopped = true
  left : traffic.stopping.closesResults = true → traffic.Left

theorem workersFor_pos (requested : Int) : 0 < workersFor requested := by
  unfold workersFor
  split
  · omega
  · decide

theorem sound_of_new (requested : Int) (store : Store) : (of (.new requested store)).Sound where
  submitted := rfl
  hits := Nat.le_refl _
  carried := ⟨[], fun _ => rfl, fun _ => rfl⟩
  able := workersFor_pos requested
  manned := Bool.noConfusion
  unmanned := fun _ => rfl
  emptied := fun member => absurd member List.not_mem_nil
  closed := fun _ => rfl
  stopped := fun _ => rfl
  marked := fun reached => absurd rfl reached
  left := Bool.noConfusion

/-- Starting the pool keeps its traffic sound. -/
theorem Sound.start (sound : traffic.Sound) (runs : traffic.pool.stopped = false) :
    Sound { traffic with pool := traffic.pool.start } := by
  by_cases started : traffic.pool.started = true
  · rw [Pool.start, if_pos started]
    exact sound
  · rw [Pool.start, if_neg started]
    have unmanned := sound.unmanned (Bool.eq_false_iff.mpr started)
    have submitted := sound.submitted
    have hits := sound.hits
    obtain ⟨lost, lossless, counts⟩ := sound.carried
    rw [unmanned] at submitted hits
    exact
      { sound with
        submitted := by
          dsimp only
          rw [List.countP_replicate]
          exact submitted
        hits := by
          dsimp only
          rw [List.countP_replicate]
          exact hits
        carried := by
          refine ⟨lost, lossless, fun job => ?_⟩
          rw [counts, carries, unmanned]
          dsimp only [carries]
          rw [List.filterMap_replicate_of_none rfl]
          rfl
        manned := fun _ => List.length_replicate
        unmanned := fun off => by cases off
        emptied := fun member => by
          cases List.eq_of_mem_replicate member
        left := fun closes => by
          have stopped := sound.marked fun running => by
            rw [running] at closes
            cases closes
          rw [runs] at stopped
          cases stopped }

theorem Sound.submit (sound : traffic.Sound) (job : Job) (runs : traffic.pool.stopped = false)
    (opened : traffic.pool.closed = false) :
    Sound
      { traffic with
        pool := { traffic.pool with submitted := traffic.pool.submitted + 1 }
        blocked := job :: traffic.blocked } :=
  { sound with
    submitted := by
      have submitted := sound.submitted
      simp only [List.length_cons]
      omega
    closed := fun closed => by
      rw [show traffic.pool.closed = true from closed] at opened
      cases opened
    stopped := fun stopped => by
      rw [show traffic.pool.stopped = true from stopped] at runs
      cases runs }

/-- The job of a submitter that waited goes to the queue. -/
theorem Sound.accept
    {before after : List Job} {job : Job} (sound : traffic.Sound)
    (blocked : traffic.blocked = before ++ job :: after) :
    Sound
      { traffic with
        pool := { traffic.pool with queue := traffic.pool.queue ++ [job] }
        blocked := before ++ after
        accepted := traffic.accepted ++ [job] } := by
  have somebody : traffic.blocked ≠ [] := by
    rw [blocked]
    exact List.append_ne_nil_of_right_ne_nil before (List.cons_ne_nil job after)
  obtain ⟨lost, lossless, counts⟩ := sound.carried
  exact
    { sound with
      submitted := by
        have submitted := sound.submitted
        rw [blocked] at submitted
        simp only [List.length_append, List.length_cons, List.length_nil] at submitted ⊢
        omega
      carried := by
        refine ⟨lost, lossless, fun other => ?_⟩
        have counted := counts other
        simp only [carries, Pool.carries, List.count_append] at counted ⊢
        omega
      emptied := fun member => (sound.emptied member).imp_right fun ⟨closed, _⟩ =>
        absurd (sound.closed closed) somebody
      closed := fun closed => absurd (sound.closed closed) somebody
      stopped := fun stopped => absurd (sound.stopped stopped) somebody }

/-- A submitter that waited is sent away with its job. -/
theorem Sound.refuse
    {before after : List Job} {job : Job} (sound : traffic.Sound)
    (blocked : traffic.blocked = before ++ job :: after) :
    Sound
      { traffic with
        blocked := before ++ after
        refused := traffic.refused ++ [job] } := by
  have somebody : traffic.blocked ≠ [] := by
    rw [blocked]
    exact List.append_ne_nil_of_right_ne_nil before (List.cons_ne_nil job after)
  exact
    { sound with
      submitted := by
        have submitted := sound.submitted
        rw [blocked] at submitted
        simp only [List.length_append, List.length_cons, List.length_nil] at submitted ⊢
        omega
      closed := fun closed => absurd (sound.closed closed) somebody
      stopped := fun stopped => absurd (sound.stopped stopped) somebody }

/-- How often a job is with a worker of a crew one of whose workers is known. -/
theorem count_crew (before after : List Worker) (worker : Worker) (job : Job) :
    ((before ++ worker :: after).filterMap Worker.job?).count job =
      (before.filterMap Worker.job?).count job + (after.filterMap Worker.job?).count job +
        worker.carries job := by
  rw [List.filterMap_append, List.filterMap_cons, List.count_append, Worker.carries]
  cases worker.job? with
  | none => rfl
  | some other =>
    simp only [Option.toList_some, List.count_cons, List.count_nil]
    omega

/-- A move of a worker keeps the traffic sound. -/
theorem Sound.work
    {pool : Pool} {before after : List Worker} {worker next : Worker} (sound : traffic.Sound)
    (crew : traffic.pool.crew = before ++ worker :: after)
    (moves : traffic.pool.Moves worker pool next) :
    Sound { traffic with pool := { pool with crew := before ++ next :: after } } := by
  have balanced := moves.shift.balanced
  obtain ⟨lost, lossless, counts⟩ := sound.carried
  obtain ⟨dropped, dropless, moved⟩ := balanced.carried
  have course := balanced.course
  exact
    { submitted := by
        have submitted := sound.submitted
        have jobs := balanced.jobs
        rw [crew, countP_place] at submitted
        dsimp only
        rw [countP_place, course.submitted]
        omega
      hits := by
        have hits := sound.hits
        have moreHits := balanced.hits
        rw [crew, countP_place] at hits
        dsimp only
        rw [countP_place]
        omega
      carried := by
        refine ⟨lost ++ dropped, fun running => ?_, fun job => ?_⟩
        · have ran := course.cancelled.symm.trans running
          rw [lossless ran, dropless ran]
          rfl
        · have counted := counts job
          have carried := moved job
          simp only [carries, crew, count_crew, List.count_append, Pool.carries]
            at counted carried ⊢
          omega
      able := by
        dsimp only
        rw [course.workers]
        exact sound.able
      manned := fun started => by
        have manned := sound.manned (course.started.symm.trans started)
        rw [crew] at manned
        dsimp only
        rw [course.workers, ← manned, List.length_append, List.length_append]
        rfl
      unmanned := fun off => by
        have unmanned := sound.unmanned (course.started.symm.trans off)
        rw [crew] at unmanned
        exact absurd unmanned (List.append_ne_nil_of_right_ne_nil before (List.cons_ne_nil _ _))
      emptied := fun member => by
        dsimp only at member ⊢
        rw [course.cancelled, course.closed]
        have leftNow : next = .gone ∨ .gone ∈ traffic.pool.crew := by
          rw [crew]
          by_cases leaves : next = .gone
          · exact Or.inl leaves
          · exact Or.inr (mem_of_mem_replaced member (Ne.symm leaves))
        rcases leftNow with leaves | already
        · exact (balanced.gone leaves).imp_right (And.imp_right balanced.emptied)
        · exact (sound.emptied already).imp_right (And.imp_right balanced.emptied)
      closed := fun closed => sound.closed (course.closed.symm.trans closed)
      stopped := fun stopped => sound.stopped (course.stopped.symm.trans stopped)
      marked := fun reached => course.stopped.trans (sound.marked reached)
      left := fun closes => by
        have member : worker ∈ traffic.pool.crew := by
          rw [crew]
          exact List.mem_append_cons_self
        exact absurd (sound.left closes worker member) balanced.here }

theorem Sound.receiveResult
    {message : Message} {rest : List Message} (sound : traffic.Sound)
    (arrived : traffic.pool.results = message :: rest) :
    Sound
      { traffic with
        pool := { traffic.pool with results := rest }
        received := traffic.received ++ [message] } := by
  obtain ⟨lost, lossless, counts⟩ := sound.carried
  exact
    { sound with
      carried := by
        refine ⟨lost, lossless, fun job => ?_⟩
        have counted := counts job
        simp only [carries, Pool.carries, arrived, List.map_append, List.map_cons, List.map_nil,
          List.count_append, List.count_cons, List.count_nil] at counted ⊢
        omega }

theorem Sound.receiveFault
    {message : Message} {rest : List Message} (sound : traffic.Sound)
    (arrived : traffic.pool.faults = message :: rest) :
    Sound
      { traffic with
        pool := { traffic.pool with faults := rest }
        received := traffic.received ++ [message] } := by
  obtain ⟨lost, lossless, counts⟩ := sound.carried
  exact
    { sound with
      carried := by
        refine ⟨lost, lossless, fun job => ?_⟩
        have counted := counts job
        simp only [carries, Pool.carries, arrived, List.map_append, List.map_cons, List.map_nil,
          List.count_append, List.count_cons, List.count_nil] at counted ⊢
        omega }

theorem Sound.finish (sound : traffic.Sound) (nobody : traffic.blocked = []) :
    Sound { traffic with pool := traffic.pool.finish } :=
  { sound with
    emptied := fun member => (sound.emptied member).imp_right fun ⟨_, empty⟩ => ⟨rfl, empty⟩
    closed := fun _ => nobody }

theorem Sound.cancel (sound : traffic.Sound) :
    Sound { traffic with pool := traffic.pool.cancel } := by
  obtain ⟨lost, _, counts⟩ := sound.carried
  exact
    { sound with
      carried := ⟨lost, fun running => (by cases running), counts⟩
      emptied := fun _ => Or.inl rfl }

/-- Stopping goes on. -/
theorem Sound.proceed (sound : traffic.Sound) {stopping : Stopping}
    (stopped : traffic.pool.stopped = true)
    (left : stopping.closesResults = true → traffic.Left) :
    Sound { traffic with stopping } :=
  { sound with
    marked := fun _ => stopped
    left := left }

/-- Every step keeps the traffic sound. -/
theorem Sound.step (sound : traffic.Sound) (step : traffic.Step next) : next.Sound := by
  cases step with
  | start runs => exact sound.start runs
  | turnAway => exact sound
  | submit job runs opened => exact sound.submit job runs opened
  | accept blocked => exact sound.accept blocked
  | refuse blocked => exact sound.refuse blocked
  | work crew moves => exact sound.work crew moves
  | receiveResult arrived => exact sound.receiveResult arrived
  | receiveFault arrived => exact sound.receiveFault arrived
  | finish nobody => exact sound.finish nobody
  | cancel => exact sound.cancel
  | stop nobody =>
    exact
      { sound with
        stopped := fun _ => nobody
        marked := fun _ => rfl
        left := Bool.noConfusion }
  | stopAgain stopped =>
    rw [Pool.stop, if_pos stopped]
    exact sound
  | stopFinish reached =>
    have stopped := sound.marked (by rw [reached]; exact Stopping.noConfusion)
    exact (sound.finish (sound.stopped stopped)).proceed stopped Bool.noConfusion
  | stopCancel reached =>
    have stopped := sound.marked (by rw [reached]; exact Stopping.noConfusion)
    exact sound.cancel.proceed stopped Bool.noConfusion
  | stopResults reached left =>
    have stopped := sound.marked (by rw [reached]; exact Stopping.noConfusion)
    exact sound.proceed stopped fun _ => left
  | stopFaults reached =>
    have stopped := sound.marked (by rw [reached]; exact Stopping.noConfusion)
    exact sound.proceed stopped fun _ => sound.left (by rw [reached]; rfl)
  | outside store => exact { sound with }

theorem Sound.steps (sound : traffic.Sound) (run : Relation.ReflTransGen Step traffic next) :
    next.Sound := by
  induction run with
  | refl => exact sound
  | tail _ step inductionHypothesis => exact inductionHypothesis.step step

/-! ## The whole run -/

/-- Every job is accounted for, and no channel is used after it was closed. -/
structure Conserved (traffic : Traffic) : Prop where
  counted : traffic.pool.submitted =
    traffic.pool.queue.length + traffic.pool.crew.countP Worker.uncounted +
      traffic.pool.processed + traffic.pool.failed +
        (traffic.blocked.length + traffic.refused.length)
  hits : traffic.pool.cacheHits ≤ traffic.pool.processed + traffic.pool.crew.countP Worker.hit
  /-- An accepted job waits in the queue, is with a worker, has brought one message, or was lost,
  and then the work was cancelled. -/
  accounted : ∃ lost : List Job, (traffic.pool.cancelled = false → lost = []) ∧
    traffic.accepted.Perm
      (traffic.pool.queue ++ traffic.pool.crew.filterMap Worker.job? ++
        traffic.produced.map (·.job) ++ lost)
  single : ∀ job,
    (traffic.produced.map (·.job)).count job ≤ traffic.accepted.count job
  /-- Where nothing is cancelled, the workers do not leave before the work is finished, and then
  each accepted job has brought one message. -/
  complete : traffic.pool.started = true → traffic.pool.cancelled = false → traffic.Left →
    traffic.pool.closed = true ∧ (traffic.produced.map (·.job)).Perm traffic.accepted
  queueOpen : traffic.blocked ≠ [] → traffic.pool.closed = false
  channelsOpen : ∀ message, .sending message ∈ traffic.pool.crew →
    traffic.stopping.closesResults = false ∧ traffic.stopping.closesFaults = false

theorem Sound.accounted (sound : traffic.Sound) :
    ∃ lost : List Job, (traffic.pool.cancelled = false → lost = []) ∧
      traffic.accepted.Perm
        (traffic.pool.queue ++ traffic.pool.crew.filterMap Worker.job? ++
          traffic.produced.map (·.job) ++ lost) := by
  obtain ⟨lost, lossless, counts⟩ := sound.carried
  refine ⟨lost, lossless, List.perm_iff_count.mpr fun job => ?_⟩
  rw [counts]
  simp only [carries, Pool.carries, produced, List.map_append, List.count_append]
  omega

theorem Sound.single (sound : traffic.Sound) (job : Job) :
    (traffic.produced.map (·.job)).count job ≤ traffic.accepted.count job := by
  obtain ⟨lost, _, accounted⟩ := sound.accounted
  rw [accounted.count_eq]
  simp only [List.count_append]
  omega

theorem Left.jobs (left : traffic.Left) : traffic.pool.crew.filterMap Worker.job? = [] := by
  refine List.filterMap_eq_nil_iff.mpr fun worker member => ?_
  rw [left worker member]
  rfl

/-- When the last worker has left though nothing was cancelled, there is nothing left to do. -/
theorem Sound.finished
    (sound : traffic.Sound) (started : traffic.pool.started = true)
    (running : traffic.pool.cancelled = false) (left : traffic.Left) :
    traffic.pool.closed = true ∧ traffic.pool.queue = [] := by
  have manned := sound.manned started
  have able := sound.able
  obtain ⟨worker, member⟩ : ∃ worker, worker ∈ traffic.pool.crew :=
    List.exists_mem_of_length_pos (by omega)
  rw [left worker member] at member
  rcases sound.emptied member with cancelled | finished
  · rw [running] at cancelled
    cases cancelled
  · exact finished

theorem Sound.complete
    (sound : traffic.Sound) (started : traffic.pool.started = true)
    (running : traffic.pool.cancelled = false) (left : traffic.Left) :
    traffic.pool.closed = true ∧ (traffic.produced.map (·.job)).Perm traffic.accepted := by
  obtain ⟨closed, empty⟩ := sound.finished started running left
  obtain ⟨lost, lossless, accounted⟩ := sound.accounted
  rw [empty, left.jobs, lossless running, List.append_nil] at accounted
  exact ⟨closed, accounted.symm⟩

theorem closesResults_of_closesFaults
    {stopping : Stopping} (closes : stopping.closesFaults = true) :
    stopping.closesResults = true := by
  cases stopping with
  | faultsClosed => rfl
  | _ => cases closes

theorem Sound.channelsOpen
    (sound : traffic.Sound) {message : Message} (sends : .sending message ∈ traffic.pool.crew) :
    traffic.stopping.closesResults = false ∧ traffic.stopping.closesFaults = false := by
  have opened : traffic.stopping.closesResults ≠ true := by
    intro closes
    cases sound.left closes _ sends
  exact ⟨Bool.eq_false_iff.mpr opened,
    Bool.eq_false_iff.mpr fun closes => opened (closesResults_of_closesFaults closes)⟩

/-- The jobs of a new pool are accounted for in every state that it reaches, whoever submits,
receives, cancels or stops. -/
theorem jobs_conserved
    (requested : Int) (store : Store) {traffic : Traffic}
    (run : Relation.ReflTransGen Step (of (.new requested store)) traffic) :
    traffic.Conserved := by
  have sound : traffic.Sound := (sound_of_new requested store).steps run
  exact
    { counted := sound.submitted
      hits := sound.hits
      accounted := sound.accounted
      single := sound.single
      complete := sound.complete
      queueOpen := fun somebody =>
        Bool.eq_false_iff.mpr fun closed => somebody (sound.closed closed)
      channelsOpen := fun _ sends => sound.channelsOpen sends }

/-- A store that finds no file: its content cache is full. -/
def fullStore : Store :=
  ⟨Extraction.Settings.default, .empty,
    { Cache.Content.new 1 0 with entries := [("b.ts", .empty)] }, none⟩

/-- One job is submitted to one worker and cannot be read. The work is finished, the worker leaves,
and the fault is received. -/
theorem jobs_conserved_faulty :
    ∃ traffic, Relation.ReflTransGen Step (of (.new 1 fullStore)) traffic ∧
      traffic.pool.failed = 1 ∧ traffic.Left ∧
      traffic.received.map (·.job) = [⟨"a.ts", "a.ts", 0⟩] ∧ traffic.Conserved := by
  have fresh : Relation.ReflTransGen Step (of (.new 1 fullStore)) _ := .refl
  have submitted := (fresh.tail (.start rfl)).tail (.submit ⟨"a.ts", "a.ts", 0⟩ rfl rfl)
  have accepted := (submitted.tail (@Step.accept _ [] [] _ rfl (by decide))).tail (.finish rfl)
  have taken := accepted.tail (@Step.work _ _ [] [] _ _ rfl (.regular rfl))
  have looked := taken.tail (@Step.work _ _ [] [] _ _ rfl (.regular rfl))
  have failed := looked.tail (@Step.work _ _ [] [] _ _ rfl (.regular rfl))
  have counted := failed.tail (@Step.work _ _ [] [] _ _ rfl (.regular rfl))
  have delivered := counted.tail (@Step.work _ _ [] [] _ _ rfl (.regular rfl))
  have left := delivered.tail (@Step.work _ _ [] [] _ _ rfl (.regular rfl))
  have received := left.tail (.receiveFault rfl)
  exact ⟨_, received, rfl, fun _ => List.mem_singleton.mp, rfl, jobs_conserved 1 fullStore received⟩

end Traffic

end ImportAudit.Scan
