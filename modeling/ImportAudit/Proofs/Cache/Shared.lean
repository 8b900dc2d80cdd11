import ImportAudit.Proofs.Cache.Truthful
import ImportAudit.Proofs.Discovery.Names
import ImportAudit.Proofs.Scan.Progress
import ImportAudit.Proofs.Scan.Reachable

/-!
# Scans that share a result cache

Any number of scans, one after the other, may share one result cache: under either parse mode,
below any directories, cancelled or failing, while the files change in between. As long as size
and time tell the contents of a path apart, each of them ends like a scan that reads every file.
-/

namespace ImportAudit.Scan

open Extraction.Settings (ofMode)

variable {markers : List Marker} {mode : ParseMode} {tree : FileTree} {trees : List FileTree}

/-! ## The contract of a shared cache -/

/-- A result found by its stamp is what reading the file afresh would give. -/
theorem cachedContract_settled
    (determined : Determined (tree :: trees)) (named : mode.Named) {job : Job}
    (labelled : Text.endsWith ".ts".toList job.file.toList =
      Text.endsWith ".ts".toList job.path.toList)
    {store after : Store} {outcome : Except Fault (Extraction × Bool)}
    (sound : (cachedContract markers mode tree trees).Sound store)
    (looked : job.look store = (.settled outcome, after)) :
    (cachedContract markers mode tree trees).Sound after ∧
      (cachedContract markers mode tree trees).Brings job outcome := by
  obtain ⟨sameSettings, rfl, serves, cache, shared, truthful⟩ := sound
  rcases Job.settled_cases shared looked with
    ⟨fault, found, rfl, rfl⟩ |
      ⟨node, entry, touched, found, member, sameKey, sameSize, sameTime, rfl, rfl, held⟩
  · obtain ⟨reported, fresh⟩ :
        ∃ reported, job.freshOutcome (ofMode markers mode) after.tree = .error reported :=
      freshOutcome_of_stat_error found
    refine ⟨⟨sameSettings, rfl, serves, cache, shared, truthful⟩, ?_⟩
    simp only [cachedContract, fresh, Faithful]
  · rw [sameSettings] at sameKey
    exact ⟨⟨sameSettings, rfl, serves, touched, rfl,
        fun kept isKept => truthful kept (held kept isKept)⟩,
      faithful_of_truthful determined named labelled found (truthful entry member) sameKey
        sameSize sameTime⟩

theorem cachedContract_unread
    {job : Job} {store after : Store} {stamp : Option Stamp}
    (sound : (cachedContract markers mode tree trees).Sound store)
    (looked : job.look store = (.unread stamp, after)) :
    (cachedContract markers mode tree trees).Sound after ∧
      (cachedContract markers mode tree trees).Stamped job stamp := by
  obtain ⟨sameSettings, rfl, serves, cache, shared, truthful⟩ := sound
  obtain ⟨node, touched, found, rfl, rfl, held⟩ := Job.unread_cases shared looked
  exact ⟨⟨sameSettings, rfl, serves, touched, rfl,
      fun kept isKept => truthful kept (held kept isKept)⟩, node, found, rfl⟩

/-- Reading a file leaves the cache alone and brings the file's own outcome. -/
theorem cachedContract_extract
    {job : Job} {store after : Store} {outcome : Except Fault Extraction} {log : List Log.Record}
    (sound : (cachedContract markers mode tree trees).Sound store)
    (extracted : job.extract store = (outcome, after, log)) :
    (cachedContract markers mode tree trees).Sound after ∧
      job.freshOutcome (ofMode markers mode) tree = outcome := by
  obtain ⟨sameSettings, rfl, serves, cache, shared, truthful⟩ := sound
  obtain ⟨sameOutcome, contents, stillServes, sameStore⟩ := job.extract_eq serves
  rw [extracted] at sameOutcome sameStore
  subst sameStore
  rw [← sameSettings]
  exact ⟨⟨sameSettings, rfl, stillServes, cache, shared, truthful⟩, sameOutcome.symm⟩

/-- What is kept under the stamp of its file is true of the trees seen so far. -/
theorem cachedContract_kept
    (named : mode.Named) {job : Job}
    (labelled : Text.endsWith ".ts".toList job.file.toList =
      Text.endsWith ".ts".toList job.path.toList)
    {store : Store} {stamp : Option Stamp} {result : Extraction}
    (sound : (cachedContract markers mode tree trees).Sound store)
    (stamped : (cachedContract markers mode tree trees).Stamped job stamp)
    (brings : (cachedContract markers mode tree trees).Brings job (.ok (result, false))) :
    (cachedContract markers mode tree trees).Sound (job.keep stamp result store) := by
  obtain ⟨sameSettings, rfl, serves, cache, shared, truthful⟩ := sound
  obtain ⟨node, looked, rfl⟩ := stamped
  simp only [cachedContract] at brings
  cases fresh : job.freshOutcome (ofMode markers mode) store.tree with
  | error fault => simp [fresh, Faithful] at brings
  | ok own =>
    simp only [fresh, Faithful] at brings
    obtain rfl := brings.2 trivial
    obtain ⟨content, source, read, decoded, rfl⟩ := Job.read_of_freshOutcome fresh
    simp only [Job.keep, shared]
    refine ⟨sameSettings, rfl, serves, _, rfl, fun entry member => ?_⟩
    rcases Cache.Result.mem_of_mem_put member with rfl | earlier
    · rw [sameSettings]
      exact .read named List.mem_cons_self looked read decoded labelled
    · exact truthful entry earlier

theorem cachedContract_binds
    (determined : Determined (tree :: trees)) (named : mode.Named) {job : Job}
    (labelled : Text.endsWith ".ts".toList job.file.toList =
      Text.endsWith ".ts".toList job.path.toList) :
    (cachedContract markers mode tree trees).Binds job where
  settled := cachedContract_settled determined named labelled
  unread := cachedContract_unread
  failed := by
    intro store after stamp fault log sound _ extracted
    obtain ⟨soundAfter, fresh⟩ := cachedContract_extract sound extracted
    exact ⟨soundAfter, by simp only [cachedContract, fresh, Faithful]⟩
  extracted := by
    intro store after stamp result log sound _ extracted
    obtain ⟨soundAfter, fresh⟩ := cachedContract_extract sound extracted
    refine ⟨soundAfter, ?_⟩
    simp only [cachedContract, fresh, Faithful]
    exact ⟨⟨rfl, rfl⟩, fun _ => trivial⟩
  kept := cachedContract_kept named labelled

/-! ## Histories -/

def DirectoryRoot (tree : FileTree) (root : String) : Prop :=
  ∀ node, tree.linkStat root = .ok node → node.isDirectory = true

/-- A result cache that scans of some trees, the latest first, have shared since it was made. -/
inductive Shares (markers : List Marker) (capacity : Int) : List FileTree → Cache.Result → Prop
  | made {cache : Cache.Result} (new : Cache.Result.new capacity = .ok cache) :
      Shares markers capacity [] cache
  | scanned {trees : List FileTree} {cache after : Cache.Result} {mode : ParseMode}
      {tree : FileTree} {root : String} {options : Options} {cancelled : Bool} {verdict : Verdict}
      (earlier : Shares markers capacity trees cache) (named : mode.Named)
      (directory : DirectoryRoot tree root)
      (builds : Builds (some cache) (ofMode markers mode) tree root options cancelled verdict
        (some after)) :
      Shares markers capacity (tree :: trees) after

theorem labelled_of_mem_jobsOf
    {root : String} {options : Options} {files : List String} (directory : DirectoryRoot tree root)
    (found : discovered tree root options = .ok files) {job : Job}
    (member : job ∈ jobsOf root files) :
    Text.endsWith ".ts".toList job.file.toList = Text.endsWith ".ts".toList job.path.toList := by
  obtain ⟨⟨file, number⟩, numbered, rfl⟩ := List.mem_map.mp member
  have listed : file ∈ files := (List.mem_zipIdx numbered).2.2 ▸ List.getElem_mem _
  exact (Discovery.endsWith_ts_join directory found listed).symm

section Scanned

variable {root : String} {options : Options} {cancelled : Bool} {verdict : Verdict}
  {after : Option Cache.Result} {cache : Cache.Result}

theorem cachedContract_sound
    (mode : ParseMode) (tree : FileTree)
    (truthful : ∀ entry ∈ cache.entries, Truthful markers trees entry) :
    (cachedContract markers mode tree trees).Sound
      (freshStore (ofMode markers mode) tree (some cache)) :=
  ⟨rfl, rfl, Cache.Content.unbounded_serves tree, cache, rfl,
    fun entry member => (truthful entry member).cons tree⟩

/-- A scan with a truthful cache ends with one, and on results that agree with the files. -/
theorem Builds.concluded_of_truthful
    (determined : Determined (tree :: trees)) (named : mode.Named)
    (directory : DirectoryRoot tree root)
    (truthful : ∀ entry ∈ cache.entries, Truthful markers trees entry)
    (builds : Builds (some cache) (ofMode markers mode) tree root options cancelled verdict after) :
    ((∃ fault, discovered tree root options = .error fault ∧
        verdict = .failed (.during .discovery fault)) ∨
      ∃ files, discovered tree root options = .ok files ∧
        Run.Concluded (cachedContract markers mode tree trees) root options files
          (jobsOf root files) cancelled verdict) ∧
    ∃ later, after = some later ∧
      ∀ entry ∈ later.entries, Truthful markers (tree :: trees) entry := by
  have sound := cachedContract_sound mode tree truthful
  have binds : ∀ files, discovered tree root options = .ok files →
      ∀ job ∈ jobsOf root files, (cachedContract markers mode tree trees).Binds job :=
    fun files found job member =>
      cachedContract_binds determined named (labelled_of_mem_jobsOf directory found member)
  obtain ⟨concluded, store, soundAfter, results⟩ := builds.concluded sound binds
  obtain ⟨_, _, _, later, shared, laterTruthful⟩ := soundAfter
  exact ⟨concluded, later, results.symm.trans shared, laterTruthful⟩

/-- All entries of a shared cache are truthful, whatever scans have shared it. -/
theorem truthful_of_shares
    {capacity : Int} (determined : Determined trees)
    (shares : Shares markers capacity trees cache) :
    ∀ entry ∈ cache.entries, Truthful markers trees entry := by
  induction shares with
  | made new =>
    intro entry member
    unfold Cache.Result.new at new
    split at new
    · cases new
    · cases new
      cases member
  | scanned earlier named directory builds inductionHypothesis =>
    obtain ⟨_, later, same, truthful⟩ :=
      builds.concluded_of_truthful determined named directory
        (inductionHypothesis determined.tail)
    cases same
    exact truthful

end Scanned

/-! ## Ending alike -/

/-- Two faults that are the same or are about the same file. -/
def SameFile (fault other : Fault) : Prop :=
  fault = other ∨ ∃ file inner otherInner,
    fault = .during (.indexing file) inner ∧ other = .during (.indexing file) otherInner

/-- A verdict that ends like an outcome: both fail at the same file, or their indexes agree. -/
def Verdict.EndsLike : Verdict → Except Fault Built → Prop
  | .failed fault, .error other => SameFile fault other
  | .built index _, .ok scan => index.Agrees scan.index
  | _, _ => False

/-- Messages that agree with their files fail at the same file as these, or not at all. -/
theorem resultsOf_faithful
    {settings : Extraction.Settings} {messages : List Message}
    (faithful : ∀ message ∈ messages,
      Faithful (message.job.freshOutcome settings tree) message.outcome) :
    (∃ file inner other,
        resultsOf messages = .error (.during (.indexing file) inner) ∧
          resultsOf ((messages.map (·.job)).map (Job.freshMessage settings tree)) =
            .error (.during (.indexing file) other)) ∨
      ∃ results fresh, resultsOf messages = .ok results ∧
        resultsOf ((messages.map (·.job)).map (Job.freshMessage settings tree)) = .ok fresh ∧
          SameResults results fresh := by
  induction messages with
  | nil => exact Or.inr ⟨[], [], rfl, rfl, .nil⟩
  | cons message messages inductionHypothesis =>
    obtain ⟨first, others⟩ := List.forall_mem_cons.mp faithful
    cases fresh : message.job.freshOutcome settings tree with
    | error fault =>
      cases outcome : message.outcome with
      | ok found => simp [fresh, outcome, Faithful] at first
      | error other =>
        refine Or.inl ⟨message.job.file, other, fault, ?_, ?_⟩
        · simp [resultsOf, outcome]
        · simp [resultsOf, Job.freshMessage, fresh, Except.map]
    | ok own =>
      cases outcome : message.outcome with
      | error other => simp [fresh, outcome, Faithful] at first
      | ok found =>
        simp only [fresh, outcome, Faithful] at first
        rcases inductionHypothesis others with
          ⟨file, inner, other, failed, freshFailed⟩ | ⟨results, freshResults, done, freshDone, same⟩
        · refine Or.inl ⟨file, inner, other, ?_, ?_⟩
          · simp [resultsOf, outcome, failed]
          · simp only [List.map_cons, resultsOf, freshFailed]
            simp [Job.freshMessage, fresh, Except.map]
        · refine Or.inr ⟨(message.job.file, found) :: results,
            (message.job.file, own, false) :: freshResults, ?_, ?_, .cons ⟨rfl, first.1⟩ same⟩
          · simp [resultsOf, outcome, done]
          · simp only [List.map_cons, resultsOf, freshDone]
            simp [Job.freshMessage, fresh, Except.map]

/-- Messages that are faithful to a fresh reading end the scan as a fresh one ends. -/
theorem Verdict.of_endsLike
    {settings : Extraction.Settings} {messages : List Message}
    (faithful : ∀ message ∈ messages,
      Faithful (message.job.freshOutcome settings tree) message.outcome)
    (cacheHits : Nat) (root : String) (options : Options) (files : List String) :
    (Verdict.of cacheHits (builtFrom root options files messages)).EndsLike
      (builtFrom root options files
        ((messages.map (·.job)).map (Job.freshMessage settings tree))) := by
  unfold builtFrom
  rcases resultsOf_faithful faithful with
    ⟨file, inner, other, failed, freshFailed⟩ | ⟨results, fresh, done, freshDone, same⟩
  · rw [failed, freshFailed]
    exact Or.inr ⟨file, inner, other, rfl, rfl⟩
  · rw [done, freshDone]
    exact assemble_agrees same root options.componentExtension files

/-- Whatever scans shared a cache before, and whatever the schedule, a scan with it ends like one
without: it fails at the same file, or finds the same in every file and so the same unused
names. -/
theorem shared_endsLike_fresh
    {capacity : Int} {cache : Cache.Result} {root : String} {options : Options}
    {verdict : Verdict} {after : Option Cache.Result}
    (shares : Shares markers capacity trees cache) (determined : Determined (tree :: trees))
    (named : mode.Named) (directory : DirectoryRoot tree root)
    (builds : Builds (some cache) (ofMode markers mode) tree root options false verdict after) :
    verdict.EndsLike (build none (ofMode markers mode) tree root options false).result ∧
      ∀ index stats scan, verdict = .built index stats →
        (build none (ofMode markers mode) tree root options false).result = .ok scan →
          ∀ matchMode, Usage.findings matchMode index = Usage.findings matchMode scan.index := by
  have endsLike :
      verdict.EndsLike (build none (ofMode markers mode) tree root options false).result := by
    obtain ⟨concluded, _⟩ :=
      builds.concluded_of_truthful determined named directory
        (truthful_of_shares determined.tail shares)
    rcases concluded with ⟨fault, found, rfl⟩ | ⟨files, found, ⟨stopped, _⟩ | complete⟩
    · rw [build_undiscovered found]
      exact Or.inl rfl
    · cases stopped
    · obtain ⟨messages, cacheHits, sameJobs, brings, rfl, _⟩ := complete
      rw [build_fresh found, ← sameJobs]
      exact Verdict.of_endsLike brings cacheHits root options files
  refine ⟨endsLike, ?_⟩
  rintro index stats scan rfl succeeded matchMode
  rw [succeeded] at endsLike
  exact Index.Agrees.findings endsLike matchMode

/-! ## A file that changes -/

def oneFile (content : String) (modified : Int) : FileTree :=
  ⟨[("a.ts", .file content.toUTF8 modified)]⟩

theorem nodeAt?_of_stat
    {path : String} {node : Node} (looked : tree.stat path = .ok node) :
    ∃ place, FileTree.nodeAt? tree.top place = some node := by
  unfold FileTree.stat at looked
  cases found : tree.find true path with
  | error reason => simp [found] at looked
  | ok spot =>
    simp only [found, Except.ok.injEq] at looked
    subst looked
    exact ⟨spot.1, FileTree.nodeAt?_of_find found⟩

theorem stat_oneFile
    {content : String} {modified : Int} {path : String} {node : Node}
    (looked : (oneFile content modified).stat path = .ok node) :
    node = (oneFile content modified).top ∨ node = .file content.toUTF8 modified := by
  obtain ⟨place, found⟩ := nodeAt?_of_stat looked
  cases place with
  | nil =>
    cases found
    exact Or.inl rfl
  | cons name rest =>
    by_cases here : (name == "a.ts") = true
    · cases rest with
      | nil =>
        simp [oneFile, List.lookup_cons, here] at found
        exact Or.inr found.symm
      | cons other rest => simp [oneFile, List.lookup_cons, here] at found
    · simp [oneFile, List.lookup_cons, here] at found

def contentOf? : Node → Option ByteArray
  | .file content _ => some content
  | _ => none

theorem read_of_stat
    {path : String} {node : Node} (looked : tree.stat path = .ok node) :
    (tree.read path).toOption = contentOf? node := by
  unfold FileTree.stat at looked
  unfold FileTree.read FileTree.openNode
  cases found : tree.find true path with
  | error reason => simp [found] at looked
  | ok spot =>
    simp only [found, Except.ok.injEq] at looked
    subst looked
    simp only
    cases spot.2 <;> rfl

theorem determined_oneFile (content later : String) :
    Determined [oneFile later 2, oneFile content 1] := by
  intro first firstMember second secondMember path node other looked otherLooked _ sameTime
  rw [read_of_stat looked, read_of_stat otherLooked]
  simp only [List.mem_cons, List.not_mem_nil, or_false] at firstMember secondMember
  rcases firstMember with rfl | rfl <;> rcases secondMember with rfl | rfl <;>
    rcases stat_oneFile looked with rfl | rfl <;>
      rcases stat_oneFile otherLooked with rfl | rfl <;>
        first | rfl | simp [Node.modified, FileTree.top] at sameTime

theorem directoryRoot_oneFile (content : String) (modified : Int) :
    DirectoryRoot (oneFile content modified) "." := by
  intro node looked
  have top := (oneFile content modified).linkStat_here
  rw [top] at looked
  cases looked
  rfl

theorem shared_endsLike_oneFile :
    ∃ cache verdict after,
      Shares Marker.defaults 1 [oneFile "import A from 'm'" 1] cache ∧
        Builds (some cache) (ofMode Marker.defaults .statement) (oneFile "export type A = 1" 2) "."
          .default false verdict after ∧
        verdict.EndsLike
          (build none (ofMode Marker.defaults .statement) (oneFile "export type A = 1" 2) "."
            .default false).result := by
  have determined := determined_oneFile "import A from 'm'" "export type A = 1"
  obtain ⟨firstVerdict, firstAfter, firstBuilds⟩ :=
    exists_builds "." .default (some ⟨1, [], 0, 0, 0⟩) (ofMode Marker.defaults .line)
      (oneFile "import A from 'm'" 1)
  obtain ⟨_, cache, rfl, _⟩ :=
    firstBuilds.concluded_of_truthful determined.tail (Or.inl rfl) (directoryRoot_oneFile _ _)
      (by simp)
  have shares : Shares Marker.defaults 1 [oneFile "import A from 'm'" 1] cache :=
    .scanned (.made rfl) (Or.inl rfl) (directoryRoot_oneFile _ _) firstBuilds
  obtain ⟨verdict, after, builds⟩ :=
    exists_builds "." .default (some cache) (ofMode Marker.defaults .statement)
      (oneFile "export type A = 1" 2)
  exact ⟨cache, verdict, after, shares, builds,
    (shared_endsLike_fresh shares determined (Or.inr rfl) (directoryRoot_oneFile _ _) builds).1⟩

end ImportAudit.Scan
