import ImportAudit.Scan.Build

/-!
# What jobs bring

The content cache of a scan has no limits and holds only what loading brings, so a job read
through it brings what its file gives by itself. A `Contract` says what jobs may rely on in the
store that they share and what they bring in return; one that binds every job is kept by any
number of them, whatever happens in between.
-/

namespace ImportAudit.Cache.Content

/-- Nothing is limited, and what is held for a path is what loading it brings. -/
structure Serves (cache : Content) (tree : FileTree) : Prop where
  filesUnlimited : cache.maxFiles = 0
  bytesUnlimited : cache.maxBytes = 0
  held : ∀ path content, cache.get? path = some content →
    (unbounded.load tree path).outcome = .ok content

theorem unbounded_serves (tree : FileTree) : unbounded.Serves tree :=
  ⟨rfl, rfl, fun _ _ found => by simp [get?, unbounded, new] at found⟩

theorem Serves.load_eq
    {cache : Content} {tree : FileTree} (serves : cache.Serves tree) (path : String) :
    cache.load tree path = unbounded.load tree path := by
  simp [load, loadWhere, serves.filesUnlimited, serves.bytesUnlimited, unbounded, new]

/-- Reading through the cache brings what loading brings, and the cache goes on serving. -/
theorem Serves.read
    {cache : Content} {tree : FileTree} (serves : cache.Serves tree) (path : String) :
    (cache.read tree path).outcome = (unbounded.load tree path).outcome ∧
      (cache.read tree path).cache.Serves tree := by
  have sameLoad : cache.loadWhere true tree path = unbounded.load tree path := serves.load_eq path
  unfold Content.read readWhere
  cases found : cache.get? path with
  | some content =>
    exact ⟨(serves.held path content found).symm,
      ⟨serves.filesUnlimited, serves.bytesUnlimited, serves.held⟩⟩
  | none =>
    simp only [sameLoad]
    cases loaded : (unbounded.load tree path).outcome with
    | error fault =>
      exact ⟨rfl, ⟨serves.filesUnlimited, serves.bytesUnlimited, serves.held⟩⟩
    | ok content =>
      refine ⟨rfl, ⟨serves.filesUnlimited, serves.bytesUnlimited, ?_⟩⟩
      intro other held foundOther
      by_cases same : other = path
      · subst same
        have heldIsContent : content = held := by
          simpa [get?] using foundOther
        rw [loaded, heldIsContent]
      · have differs : (other == path) = false := by simpa using same
        refine serves.held other held ?_
        simpa [get?, List.lookup_cons, differs] using foundOther

end ImportAudit.Cache.Content

namespace ImportAudit.Scan

/-- The jobs of a scan: one for each file below the root, numbered in order. -/
def jobsOf (root : String) (files : List String) : List Job :=
  files.zipIdx.map fun (file, id) => jobOf root file id

/-- What reading and extracting the file of a job brings by itself. -/
def Job.freshOutcome (settings : Extraction.Settings) (tree : FileTree) (job : Job) :
    Except Fault Extraction :=
  match (Cache.Content.unbounded.load tree job.path).outcome with
  | .error fault => .error (.during .readFile fault)
  | .ok content =>
    match Extraction.ofContent settings job.file content with
    | .error fault => .error (.during .extraction fault)
    | .ok result => .ok result

/-- The message of a job that is done without a result cache. -/
def Job.freshMessage (settings : Extraction.Settings) (tree : FileTree) (job : Job) : Message :=
  ⟨job, (job.freshOutcome settings tree).map (·, false)⟩

theorem Job.extract_eq
    {store : Store} (serves : store.contents.Serves store.tree) (job : Job) :
    (job.extract store).1 = job.freshOutcome store.settings store.tree ∧
      ∃ contents : Cache.Content, contents.Serves store.tree ∧
        (job.extract store).2.1 = { store with contents } := by
  obtain ⟨sameOutcome, stillServes⟩ := serves.read job.path
  refine ⟨?_, (store.contents.read store.tree job.path).cache, stillServes, rfl⟩
  unfold Job.freshOutcome
  rw [← sameOutcome]
  rfl

/-! ## Contracts -/

/-- What holds of the store between the moves of jobs, of the stamp with which a job reads its
file, and of what a job brings. -/
structure Contract where
  Sound : Store → Prop
  Stamped : Job → Option Stamp → Prop
  Brings : Job → Except Fault (Extraction × Bool) → Prop

/-- Every move of the job keeps its side of the contract. -/
structure Contract.Binds (contract : Contract) (job : Job) : Prop where
  settled : ∀ {store after outcome}, contract.Sound store →
    job.look store = (.settled outcome, after) → contract.Sound after ∧ contract.Brings job outcome
  unread : ∀ {store after stamp}, contract.Sound store →
    job.look store = (.unread stamp, after) → contract.Sound after ∧ contract.Stamped job stamp
  failed : ∀ {store after stamp fault log}, contract.Sound store → contract.Stamped job stamp →
    job.extract store = (.error fault, after, log) →
      contract.Sound after ∧ contract.Brings job (.error fault)
  extracted : ∀ {store after stamp result log}, contract.Sound store →
    contract.Stamped job stamp → job.extract store = (.ok result, after, log) →
      contract.Sound after ∧ contract.Brings job (.ok (result, false))
  kept : ∀ {store stamp result}, contract.Sound store → contract.Stamped job stamp →
    contract.Brings job (.ok (result, false)) → contract.Sound (job.keep stamp result store)

variable {contract : Contract}

/-- A job done from start to end keeps its side of the contract. -/
theorem Contract.Binds.run
    {job : Job} (binds : contract.Binds job) {store : Store} (sound : contract.Sound store) :
    (job.run store).message.job = job ∧
      contract.Brings job (job.run store).message.outcome ∧
        contract.Sound (job.run store).store := by
  unfold Job.run
  rcases looked : job.look store with ⟨outcome | stamp, afterLook⟩
  · obtain ⟨soundAfter, brings⟩ := binds.settled sound looked
    exact ⟨rfl, brings, soundAfter⟩
  · obtain ⟨soundLook, stamped⟩ := binds.unread sound looked
    rcases extracted : job.extract afterLook with ⟨fault | result, afterExtract, log⟩
    · obtain ⟨soundAfter, brings⟩ := binds.failed soundLook stamped extracted
      exact ⟨by simp only [extracted], by simpa only [extracted] using brings,
        by simpa only [extracted] using soundAfter⟩
    · obtain ⟨soundAfter, brings⟩ := binds.extracted soundLook stamped extracted
      have soundKept := binds.kept soundAfter stamped brings
      exact ⟨by simp only [extracted], by simpa only [extracted] using brings,
        by simpa only [extracted] using soundKept⟩

/-- Jobs done one after the other keep a contract that binds each of them. -/
theorem runJobs_of_binds
    {jobs : List Job} (binds : ∀ job ∈ jobs, contract.Binds job)
    {store : Store} (sound : contract.Sound store) :
    (runJobs store jobs).1.map (·.job) = jobs ∧
      (∀ message ∈ (runJobs store jobs).1, contract.Brings message.job message.outcome) ∧
        contract.Sound (runJobs store jobs).2.1 := by
  induction jobs generalizing store with
  | nil => exact ⟨rfl, by simp [runJobs], sound⟩
  | cons job rest inductionHypothesis =>
    obtain ⟨sameJob, brings, soundAfter⟩ := (binds job List.mem_cons_self).run sound
    obtain ⟨sameRest, restBrings, soundEnd⟩ :=
      inductionHypothesis (fun other member => binds other (List.mem_cons_of_mem job member))
        soundAfter
    refine ⟨?_, ?_, soundEnd⟩
    · simp only [runJobs, List.map_cons, sameJob, sameRest]
    · intro message member
      simp only [runJobs, List.mem_cons] at member
      rcases member with rfl | later
      · rw [sameJob]
        exact brings
      · exact restBrings message later

/-! ## Scans without a result cache -/

/-- Without a result cache every job brings what its file gives by itself. -/
def freshContract (settings : Extraction.Settings) (tree : FileTree) : Contract where
  Sound store :=
    store.settings = settings ∧ store.tree = tree ∧ store.results = none ∧
      store.contents.Serves tree
  Stamped _ _ := True
  Brings job outcome := outcome = (job.freshMessage settings tree).outcome

/-- Without a result cache, a job brings what reading its file brings. -/
theorem freshContract_binds (settings : Extraction.Settings) (tree : FileTree) (job : Job) :
    (freshContract settings tree).Binds job where
  settled := by
    rintro store after outcome ⟨_, _, noResults, _⟩ looked
    simp [Job.look, noResults] at looked
  unread := by
    rintro store after stamp ⟨sameSettings, sameTree, noResults, serves⟩ looked
    simp only [Job.look, noResults, Prod.mk.injEq, Look.unread.injEq] at looked
    obtain ⟨_, rfl⟩ := looked
    exact ⟨⟨sameSettings, sameTree, noResults, serves⟩, trivial⟩
  failed := by
    rintro store after stamp fault log ⟨rfl, rfl, noResults, serves⟩ _ extracted
    obtain ⟨sameOutcome, contents, stillServes, sameStore⟩ := job.extract_eq serves
    rw [extracted] at sameOutcome sameStore
    subst sameStore
    exact ⟨⟨rfl, rfl, noResults, stillServes⟩, by
      simp [freshContract, Job.freshMessage, ← sameOutcome, Except.map]⟩
  extracted := by
    rintro store after stamp result log ⟨rfl, rfl, noResults, serves⟩ _ extracted
    obtain ⟨sameOutcome, contents, stillServes, sameStore⟩ := job.extract_eq serves
    rw [extracted] at sameOutcome sameStore
    subst sameStore
    exact ⟨⟨rfl, rfl, noResults, stillServes⟩, by
      simp [freshContract, Job.freshMessage, ← sameOutcome, Except.map]⟩
  kept := by
    rintro store stamp result ⟨sameSettings, sameTree, noResults, serves⟩ _ _
    have unchanged : job.keep stamp result store = store := by
      unfold Job.keep
      rw [noResults]
      cases stamp <;> rfl
    rw [unchanged]
    exact ⟨sameSettings, sameTree, noResults, serves⟩

def freshStore (settings : Extraction.Settings) (tree : FileTree)
    (cache : Option Cache.Result) : Store :=
  ⟨settings, tree, .unbounded, cache⟩

theorem freshContract_sound (settings : Extraction.Settings) (tree : FileTree) :
    (freshContract settings tree).Sound (freshStore settings tree none) :=
  ⟨rfl, rfl, rfl, Cache.Content.unbounded_serves tree⟩

/-- Messages that keep the contract are the fresh ones. -/
theorem eq_freshMessages
    {settings : Extraction.Settings} {tree : FileTree} {messages : List Message}
    (brings : ∀ message ∈ messages,
      (freshContract settings tree).Brings message.job message.outcome) :
    messages = (messages.map (·.job)).map (Job.freshMessage settings tree) := by
  rw [List.map_map]
  refine (List.map_id' messages).symm.trans (List.map_congr_left ?_)
  intro message member
  have same := brings message member
  rcases message with ⟨job, outcome⟩
  simp only [freshContract] at same
  simp only [Function.comp_apply, Job.freshMessage, Message.mk.injEq, true_and]
  exact same

theorem runJobs_fresh
    (settings : Extraction.Settings) (tree : FileTree) (jobs : List Job) :
    (runJobs (freshStore settings tree none) jobs).1 =
      jobs.map (Job.freshMessage settings tree) := by
  obtain ⟨sameJobs, brings, _⟩ :=
    runJobs_of_binds (fun job _ => freshContract_binds settings tree job)
      (freshContract_sound settings tree)
  rw [eq_freshMessages (brings · ·), sameJobs]

/-! ## The outcome of a scan -/

theorem resultsOf_cons_ok
    {message : Message} {rest : List Message} {results : List (String × Extraction × Bool)}
    (gathered : resultsOf (message :: rest) = .ok results) :
    ∃ found others, message.outcome = .ok found ∧ resultsOf rest = .ok others ∧
      results = (message.job.file, found) :: others := by
  rw [resultsOf] at gathered
  cases outcome : message.outcome with
  | error fault =>
    rw [outcome] at gathered
    cases gathered
  | ok found =>
    rw [outcome] at gathered
    cases others : resultsOf rest with
    | error fault =>
      rw [others] at gathered
      cases gathered
    | ok more =>
      rw [others] at gathered
      cases gathered
      exact ⟨found, more, rfl, rfl, rfl⟩

/-- What a scan of some files makes of the messages of their jobs. -/
def builtFrom (root : String) (options : Options) (files : List String)
    (messages : List Message) : Except Fault Built :=
  match resultsOf messages with
  | .error fault => .error fault
  | .ok results =>
    let index := assemble root options.componentExtension files results
    .ok ⟨index, statsOf options.workers files results index, files⟩

/-- The files that a scan reads. -/
def discovered (tree : FileTree) (root : String) (options : Options) :
    Except Fault (List String) :=
  Discovery.files tree root ⟨Discovery.sourceExtensions, options.exclude⟩

section Outcome

variable {settings : Extraction.Settings} {tree : FileTree} {root : String} {options : Options}

/-- Without patterns to skip, a scan of a directory comes to all its source files. -/
theorem discovered_of_directory
    {entries : List (String × Node)} (unfiltered : options.exclude = [])
    (directory : tree.linkStat root = .ok (.directory entries)) :
    discovered tree root options =
      .ok (Discovery.filesAmong ⟨Discovery.sourceExtensions, []⟩ [] entries) := by
  rw [discovered, Discovery.files, unfiltered, directory]
  rfl

theorem build_undiscovered
    {fault : Fault} (found : discovered tree root options = .error fault)
    (cache : Option Cache.Result) (cancelled : Bool) :
    (build cache settings tree root options cancelled).result =
      .error (.during .discovery fault) := by
  unfold discovered at found
  simp only [build, found]

/-- A scan that nobody cancelled makes its outcome of the messages of all its jobs. -/
theorem build_discovered
    {files : List String} (found : discovered tree root options = .ok files)
    (cache : Option Cache.Result) :
    (build cache settings tree root options false).result =
      builtFrom root options files
        (runJobs (freshStore settings tree cache) (jobsOf root files)).1 := by
  unfold discovered at found
  simp only [build, found, Bool.false_and, Bool.false_eq_true, if_false, builtFrom, freshStore,
    jobsOf]
  cases resultsOf _ <;> rfl

theorem build_cache
    {files : List String} (found : discovered tree root options = .ok files)
    (cache : Option Cache.Result) :
    (build cache settings tree root options false).cache =
      (runJobs (freshStore settings tree cache) (jobsOf root files)).2.1.results := by
  unfold discovered at found
  simp only [build, found, Bool.false_and, Bool.false_eq_true, if_false, freshStore, jobsOf]
  cases resultsOf _ <;> rfl

theorem build_fresh
    {files : List String} (found : discovered tree root options = .ok files) :
    (build none settings tree root options false).result =
      builtFrom root options files ((jobsOf root files).map (Job.freshMessage settings tree)) := by
  rw [build_discovered found, runJobs_fresh]

end Outcome

end ImportAudit.Scan
