import ImportAudit.Proofs.FileTree.Following
import ImportAudit.Proofs.Scan.Progress
import ImportAudit.Proofs.Scan.Reachable

/-!
# Scans do not depend on the schedule

Without a result cache, whatever the number of workers and the order of their steps, a scan
returns what doing its jobs one after the other gives; only a cancellation can put itself in its
place. In particular no index lacks the result of a file.
-/

namespace ImportAudit.Scan

def Verdict.ofResult : Except Fault Built → Verdict
  | .error fault => .failed fault
  | .ok scan => .built scan.index scan.stats

section Sequential

variable {settings : Extraction.Settings} {tree : FileTree}

/-- No result of a scan without a result cache comes from one. -/
theorem uncached_of_mem_resultsOf
    {jobs : List Job} {results : List (String × Extraction × Bool)}
    (gathered : resultsOf (jobs.map (Job.freshMessage settings tree)) = .ok results) :
    ∀ found ∈ results, found.2.2 = false := by
  induction jobs generalizing results with
  | nil =>
    simp only [List.map_nil, resultsOf, Except.ok.injEq] at gathered
    subst gathered
    simp
  | cons job jobs inductionHypothesis =>
    obtain ⟨found, others, outcome, rest, rfl⟩ := resultsOf_cons_ok gathered
    have uncached : found.2 = false := by
      simp only [Job.freshMessage] at outcome
      cases fresh : job.freshOutcome settings tree with
      | error fault => simp [fresh, Except.map] at outcome
      | ok result =>
        simp only [fresh, Except.map, Except.ok.injEq] at outcome
        rw [← outcome]
    exact List.forall_mem_cons.mpr ⟨uncached, inductionHypothesis rest⟩

theorem Verdict.of_zero_fresh
    (root : String) (options : Options) (files : List String) (jobs : List Job) :
    Verdict.of 0 (builtFrom root options files (jobs.map (Job.freshMessage settings tree))) =
      Verdict.ofResult
        (builtFrom root options files (jobs.map (Job.freshMessage settings tree))) := by
  unfold builtFrom
  cases gathered : resultsOf (jobs.map (Job.freshMessage settings tree)) with
  | error fault => rfl
  | ok results =>
    have noneCached : results.filter (fun found => found.2.2) = [] := by
      refine List.filter_eq_nil_iff.mpr fun found member => ?_
      simp [uncached_of_mem_resultsOf gathered found member]
    have noHits : (statsOf options.workers files results
        (assemble root options.componentExtension files results)).cacheHits = 0 :=
      congrArg (fun hits => (hits.length : Int)) noneCached
    simp only [Verdict.of, Verdict.ofResult, Int.ofNat_zero]
    rw [← noHits]

end Sequential

/-- Whatever the schedule, a scan without a cache ends like a sequential one, unless it was
cancelled and says so. -/
theorem Builds.sequential
    {settings : Extraction.Settings} {tree : FileTree} {root : String} {options : Options}
    {cancelled : Bool} {verdict : Verdict} {after : Option Cache.Result}
    (builds : Builds none settings tree root options cancelled verdict after) :
    verdict = .ofResult (build none settings tree root options false).result ∨
      cancelled = true ∧ verdict = .failed (.during .scan .cancelled) := by
  have never : ∀ job result,
      ¬ (freshContract settings tree).Brings job (.ok (result, true)) := by
    intro job result brings
    simp only [freshContract, Job.freshMessage] at brings
    cases outcome : job.freshOutcome settings tree <;> simp [outcome, Except.map] at brings
  obtain ⟨concluded, _⟩ :=
    builds.concluded (freshContract_sound settings tree)
      (fun _ _ job _ => freshContract_binds settings tree job)
  rcases concluded with ⟨fault, found, failed⟩ | ⟨files, found, stopped | complete⟩
  · rw [build_undiscovered found]
    exact Or.inl failed
  · exact Or.inr stopped
  · obtain ⟨messages, cacheHits, sameJobs, brings, reported, uncached⟩ := complete
    have sameMessages := eq_freshMessages brings
    rw [sameJobs] at sameMessages
    rw [build_fresh found, reported, uncached never, sameMessages, Verdict.of_zero_fresh]
    exact Or.inl rfl

/-- Whatever the schedule, a scan without a result cache returns what its jobs give one after the
other, unless it was cancelled and says so. -/
theorem builds_eq_sequential
    {settings : Extraction.Settings} {tree : FileTree} {root : String} {options : Options}
    {cancelled : Bool} {verdict : Verdict} {after : Option Cache.Result}
    (builds : Builds none settings tree root options cancelled verdict after) :
    (verdict = .ofResult (build none settings tree root options false).result ∨
      cancelled = true ∧ verdict = .failed (.during .scan .cancelled)) ∧
    verdict ≠ .incomplete := by
  have agrees := builds.sequential
  refine ⟨agrees, ?_⟩
  rcases agrees with same | ⟨_, stopped⟩
  · rw [same]
    cases (build none settings tree root options false).result <;> simp [Verdict.ofResult]
  · simp [stopped]

def brokenTree : FileTree :=
  ⟨[("a.ts", .link "gone"), ("b.ts", .link "lost")]⟩

theorem builds_brokenTree :
    ∃ verdict after, Builds none .default brokenTree "." .default false verdict after ∧
      verdict = .failed (.during (.indexing "a.ts")
        (.during .readFile (.system "open" "a.ts" .notExist))) := by
  have found : discovered brokenTree "." .default = .ok ["a.ts", "b.ts"] := by
    rw [discovered_of_directory rfl (FileTree.linkStat_here brokenTree)]
    rfl
  have located : brokenTree.locate true "a.ts" = .ok (.free ["gone"]) := by
    have name : FileTree.LeadsDown "a.ts" := FileTree.leadsDown_of_isName (by decide)
    have target : FileTree.LeadsDown "gone" := FileTree.leadsDown_of_isName (by decide)
    have parts : Path.parts "a.ts" = ["a.ts"] := by decide
    have targetParts : Path.parts "gone" = ["gone"] := by decide
    rw [FileTree.locate, if_neg (by decide), parts, FileTree.linkLimit,
      FileTree.follow_along name rfl (by decide), targetParts]
    exact FileTree.follow_free target rfl
  have opened : brokenTree.openNode "a.ts" = .error (.system "open" "a.ts" .notExist) := by
    rw [FileTree.openNode, FileTree.find, located]
  have joined : Path.join [".", "a.ts"] = "a.ts" := by decide
  have first : (jobOf "." "a.ts" 0).freshOutcome .default brokenTree =
      .error (.during .readFile (.system "open" "a.ts" .notExist)) := by
    simp [Job.freshOutcome, jobOf, joined, Cache.Content.load, Cache.Content.loadWhere, opened,
      Cache.Content.unbounded, Cache.Content.new]
  have sequential : (build none .default brokenTree "." .default false).result =
      .error (.during (.indexing "a.ts")
        (.during .readFile (.system "open" "a.ts" .notExist))) := by
    rw [build_fresh found]
    simp only [builtFrom, jobsOf, List.zipIdx_cons, List.map_cons, resultsOf, Job.freshMessage,
      first, Except.map]
    rfl
  obtain ⟨verdict, after, builds⟩ := exists_builds "." .default none .default brokenTree
  rcases (builds_eq_sequential builds).1 with same | ⟨cancelled, _⟩
  · rw [sequential] at same
    exact ⟨verdict, after, builds, same⟩
  · cases cancelled

end ImportAudit.Scan
