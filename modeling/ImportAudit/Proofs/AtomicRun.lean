import ImportAudit.Proofs.FileTree.Writing
import ImportAudit.Proofs.PlainNames

/-!
# Audits that change their report or nothing

Jobs read files and never write one, whatever their order and wherever a scan is cancelled. So an
audit that fails leaves every file as it was, an earlier report included, and one that succeeds
changes the file of its report and no other. Modes that are not known are refused before anything
is read.
-/

namespace ImportAudit.Scan

/-! ## Scans leave the files alone -/

theorem Job.look_tree (job : Job) (store : Store) : (job.look store).2.tree = store.tree := by
  unfold Job.look
  split
  · rfl
  · split
    · rfl
    · split <;> rfl

@[simp]
theorem Job.extract_tree (job : Job) (store : Store) :
    (job.extract store).2.1.tree = store.tree := rfl

@[simp]
theorem Job.keep_tree (job : Job) (stamp : Option Stamp) (result : Extraction) (store : Store) :
    (job.keep stamp result store).tree = store.tree := by
  unfold Job.keep
  split <;> rfl

/-- Jobs rely on the files of a tree and leave them as they are. -/
def readingContract (tree : FileTree) : Contract where
  Sound store := store.tree = tree
  Stamped _ _ := True
  Brings _ _ := True

/-- Reading a file leaves the file tree as it was, whichever way it ends. -/
theorem readingContract_binds (tree : FileTree) (job : Job) : (readingContract tree).Binds job where
  settled := by
    intro store after outcome sound looked
    have unchanged := job.look_tree store
    rw [looked] at unchanged
    exact ⟨unchanged.trans sound, trivial⟩
  unread := by
    intro store after stamp sound looked
    have unchanged := job.look_tree store
    rw [looked] at unchanged
    exact ⟨unchanged.trans sound, trivial⟩
  failed := by
    intro store after stamp fault log sound _ extracted
    have unchanged := job.extract_tree store
    rw [extracted] at unchanged
    exact ⟨unchanged.trans sound, trivial⟩
  extracted := by
    intro store after stamp result log sound _ extracted
    have unchanged := job.extract_tree store
    rw [extracted] at unchanged
    exact ⟨unchanged.trans sound, trivial⟩
  kept := by
    intro store stamp result sound _ _
    exact (job.keep_tree stamp result store).trans sound

/-- At no point of a scan, whatever the schedule and whether it was cancelled, is a file other than
it was. -/
theorem tree_of_reached
    {root : String} {options : Options} {files : List String} {workers : Nat} {store : Store}
    {scan : Run}
    (reached : Relation.ReflTransGen (Run.Step root options files)
      (Run.start workers store (jobsOf root files)) scan) :
    scan.pool.store.tree = store.tree :=
  (Run.sane_of_reached (jobsOf_numbered root files) (jobsOf_files root files)
    (fun job _ => readingContract_binds store.tree job) rfl reached).sound

@[simp]
theorem runJobs_tree (store : Store) (jobs : List Job) :
    (runJobs store jobs).2.1.tree = store.tree :=
  (runJobs_of_binds (fun job _ => readingContract_binds store.tree job) rfl).2.2

/-- A scan writes nothing. -/
theorem build_tree
    (cache : Option Cache.Result) (settings : Extraction.Settings) (tree : FileTree)
    (root : String) (options : Options) (cancelled : Bool) :
    (build cache settings tree root options cancelled).tree = tree := by
  unfold build
  split
  · rfl
  · split
    · rfl
    · dsimp only
      split
      · exact runJobs_tree _ _
      · exact runJobs_tree _ _

end ImportAudit.Scan

namespace ImportAudit

/-! ## Modes that are not known -/

theorem ParseMode.parse_unknown
    {value : String} (unknown : Text.lower (Text.trim value) ∉ ["", "line", "statement"]) :
    ParseMode.parse value = .error (.unknownParseMode value) := by
  simp only [List.mem_cons, List.not_mem_nil, or_false, not_or] at unknown
  simp [ParseMode.parse, unknown]

theorem ParseMode.parse_known
    {value : String} (known : Text.lower (Text.trim value) ∈ ["", "line", "statement"]) :
    ∃ mode, ParseMode.parse value = .ok mode := by
  simp only [List.mem_cons, List.not_mem_nil, or_false] at known
  rcases known with empty | line | statement
  · exact ⟨.line, by simp [ParseMode.parse, empty]⟩
  · exact ⟨.line, by simp [ParseMode.parse, line]⟩
  · exact ⟨.statement, by simp [ParseMode.parse, statement]⟩

theorem MatchMode.parse_unknown
    {value : String}
    (unknown : Text.lower (Text.trim value) ∉ ["", "substring", "exact", "word"]) :
    MatchMode.parse value = .error (.unknownMatchMode value) := by
  simp only [List.mem_cons, List.not_mem_nil, or_false, not_or] at unknown
  simp [MatchMode.parse, unknown]

namespace Project

theorem Request.resolve_unknownParseMode
    {request : Request}
    (unknown : Text.lower (Text.trim request.parseMode) ∉ ["", "line", "statement"]) :
    request.resolve = .error (.unknownParseMode request.parseMode) := by
  rw [Request.resolve, ParseMode.parse_unknown unknown]

theorem Request.resolve_unknownMatchMode
    {request : Request}
    (known : Text.lower (Text.trim request.parseMode) ∈ ["", "line", "statement"])
    (unknown :
      Text.lower (Text.trim request.matchMode) ∉ ["", "substring", "exact", "word"]) :
    request.resolve = .error (.unknownMatchMode request.matchMode) := by
  obtain ⟨mode, parsed⟩ := ParseMode.parse_known known
  rw [Request.resolve, parsed, MatchMode.parse_unknown unknown]

/-! ## The files that an audit leaves -/

section Run

variable (cache : Option Cache.Result) (tree : FileTree) (project : String) (request : Request)
  (format : String) (cancelled : Bool)

theorem run_of_unresolved
    {request : Request} {fault : Fault} (unresolved : request.resolve = .error fault) :
    run cache tree project request format cancelled = ⟨.error fault, cache, [], tree⟩ := by
  simp only [run, findUnused, unresolved]

theorem findUnused_tree :
    (findUnused cache tree project request cancelled).tree = tree := by
  unfold findUnused
  split
  · rfl
  · exact Scan.build_tree _ _ _ _ _ _

/-- How a run ends: the search for unused names fails, or its report cannot be written, and the
files are as before; or the report is written into them. -/
theorem run_cases :
    (∃ fault, (run cache tree project request format cancelled).result = .error fault ∧
      (run cache tree project request format cancelled).tree = tree) ∨
    ∃ audit path after, (findUnused cache tree project request cancelled).result = .ok audit ∧
      Report.write tree project format audit.findings = .ok (path, after) ∧
        (run cache tree project request format cancelled).result = .ok ⟨audit, path, after⟩ ∧
          (run cache tree project request format cancelled).tree = after := by
  have unchanged := findUnused_tree cache tree project request cancelled
  cases searched : (findUnused cache tree project request cancelled).result with
  | error fault =>
    refine Or.inl ⟨fault, ?_, ?_⟩
    · simp only [run, searched]
    · simp only [run, searched, unchanged]
  | ok audit =>
    cases written : Report.write tree project format audit.findings with
    | error fault =>
      refine Or.inl ⟨fault, ?_, ?_⟩
      · simp only [run, searched, unchanged, written]
      · simp only [run, searched, unchanged, written]
    | ok done =>
      obtain ⟨path, after⟩ := done
      refine Or.inr ⟨audit, path, after, rfl, written, ?_, ?_⟩
      · simp only [run, searched, unchanged, written]
      · simp only [run, searched, unchanged, written]

end Run

/-- A report that was written is what its path leads to, encoded in the format of the label, and
nothing else has changed. -/
theorem find_report
    {tree after : FileTree} {project label path : String} {lists : Report.Lists}
    (written : Report.write tree project label lists = .ok (path, after)) :
    ∃ format place modified, Report.Format.ofLabel label = .ok format ∧
      path = Report.path project format ∧
        after.find true path =
          .ok (place, .file (Report.encode format lists).toUTF8 modified) ∧
          ∀ other, other ≠ place → after.standing? other = tree.standing? other := by
  unfold Report.write at written
  cases known : Report.Format.ofLabel label with
  | error fault =>
    rw [known] at written
    cases written
  | ok format =>
    simp only [known] at written
    cases done : tree.write (Report.path project format) (Report.encode format lists).toUTF8 0
      with
    | error fault =>
      rw [done] at written
      cases written
    | ok left =>
      rw [done] at written
      cases written
      obtain ⟨place, found, same⟩ := FileTree.find_write done
      exact ⟨format, place, 0, rfl, rfl, found, same⟩

/-- An audit is atomic. If it fails, the files are as before. If it succeeds, its path is that of
the report in the format of the label, the path leads to a file that holds the findings of the
audit in that format, and whatever stands at another place is as before. While the sources are
scanned, under any schedule and however often cancelled, the files are as before. A mode that is
not known is refused without looking at any file, the parse mode first. -/
theorem run_atomic
    (cache : Option Cache.Result) (tree : FileTree) (project : String) (request : Request)
    (format : String) (cancelled : Bool) :
    (∀ fault, (run cache tree project request format cancelled).result = .error fault →
      (run cache tree project request format cancelled).tree = tree) ∧
    (∀ reported, (run cache tree project request format cancelled).result = .ok reported →
      (findUnused cache tree project request cancelled).result = .ok reported.audit ∧
        ∃ known place modified, Report.Format.ofLabel format = .ok known ∧
          reported.path = Report.path project known ∧
            (run cache tree project request format cancelled).tree.find true reported.path =
              .ok (place,
                .file (Report.encode known reported.audit.findings).toUTF8 modified) ∧
              ∀ other, other ≠ place →
                (run cache tree project request format cancelled).tree.standing? other =
                  tree.standing? other) ∧
    (∀ options settings files workers scan,
      Relation.ReflTransGen (Scan.Run.Step (sourceFolder project) options files)
        (Scan.Run.start workers (Scan.freshStore settings tree cache)
          (Scan.jobsOf (sourceFolder project) files)) scan →
      scan.pool.store.tree = tree) ∧
    (Text.lower (Text.trim request.parseMode) ∉ ["", "line", "statement"] →
      run cache tree project request format cancelled =
        ⟨.error (.unknownParseMode request.parseMode), cache, [], tree⟩) ∧
    (Text.lower (Text.trim request.parseMode) ∈ ["", "line", "statement"] →
      Text.lower (Text.trim request.matchMode) ∉ ["", "substring", "exact", "word"] →
        run cache tree project request format cancelled =
          ⟨.error (.unknownMatchMode request.matchMode), cache, [], tree⟩) := by
  refine ⟨?_, ?_, ?_, ?_, ?_⟩
  · intro fault failed
    rcases run_cases cache tree project request format cancelled with
      ⟨_, _, unchanged⟩ | ⟨audit, path, after, _, _, succeeded, _⟩
    · exact unchanged
    · rw [succeeded] at failed
      cases failed
  · intro reported succeeded
    rcases run_cases cache tree project request format cancelled with
      ⟨fault, failed, _⟩ | ⟨audit, path, after, searched, written, done, left⟩
    · rw [failed] at succeeded
      cases succeeded
    · rw [done] at succeeded
      cases succeeded
      rw [left]
      exact ⟨searched, find_report written⟩
  · intro options settings files workers scan reached
    exact Scan.tree_of_reached reached
  · intro unknown
    exact run_of_unresolved cache tree project format cancelled
      (Request.resolve_unknownParseMode unknown)
  · intro known unknown
    exact run_of_unresolved cache tree project format cancelled
      (Request.resolve_unknownMatchMode known unknown)

/-- Where no report stands yet, the working directory has a free name for it. -/
theorem writable_report
    {tree : FileTree} (format : Report.Format)
    (free : tree.entries.lookup (Report.baseName ++ format.extension) = none) :
    tree.writable (Report.path "." format) = .ok [Report.baseName ++ format.extension] := by
  have named : Report.path "." format = Report.baseName ++ format.extension ∧
      Path.IsName (Report.baseName ++ format.extension) := by
    cases format with
    | text => exact ⟨by decide +kernel, ⟨⟨by decide, by decide, by decide⟩, by decide⟩⟩
    | json => exact ⟨by decide +kernel, ⟨⟨by decide, by decide, by decide⟩, by decide⟩⟩
    | yaml => exact ⟨by decide +kernel, ⟨⟨by decide, by decide, by decide⟩, by decide⟩⟩
  rw [named.1]
  exact FileTree.writable_name named.2 free

/-- The audit of one source fails in a format that is not known and succeeds in another. -/
theorem run_atomic_oneSource :
    (run none (oneSource twoLines.toUTF8) "." .default "xml" false).tree =
        oneSource twoLines.toUTF8 ∧
      ∃ reported place modified,
        (run none (oneSource twoLines.toUTF8) "." .default "json" false).result = .ok reported ∧
          (run none (oneSource twoLines.toUTF8) "." .default "json" false).tree.find true
              reported.path =
            .ok (place,
              .file (Report.encode .json reported.audit.findings).toUTF8 modified) := by
  obtain ⟨audit, searched, _⟩ := exists_audit_oneSource twoLines
  have left := findUnused_tree none (oneSource twoLines.toUTF8) "." .default false
  constructor
  · obtain ⟨onFailure, _⟩ := run_atomic none (oneSource twoLines.toUTF8) "." .default "xml" false
    have refused : Report.write (oneSource twoLines.toUTF8) "." "xml" audit.findings =
        .error (.unknownFormat "xml") := rfl
    apply onFailure (.unknownFormat "xml")
    simp only [run, searched, left, refused]
  · obtain ⟨_, onSuccess, _⟩ :=
      run_atomic none (oneSource twoLines.toUTF8) "." .default "json" false
    have label : Report.Format.ofLabel "json" = .ok .json := rfl
    obtain ⟨after, written⟩ : ∃ after,
        Report.write (oneSource twoLines.toUTF8) "." "json" audit.findings =
          .ok (Report.path "." .json, after) := by
      have writable : (oneSource twoLines.toUTF8).writable (Report.path "." .json) =
          .ok ["unused_intrafaces.json"] := writable_report .json rfl
      simp only [Report.write, label, FileTree.write, writable]
      exact ⟨_, rfl⟩
    have done : (run none (oneSource twoLines.toUTF8) "." .default "json" false).result =
        .ok ⟨audit, Report.path "." .json, after⟩ := by
      simp only [run, searched, left, written]
    obtain ⟨_, known, place, modified, isKnown, _, found, _⟩ := onSuccess _ done
    rw [label] at isKnown
    cases isKnown
    exact ⟨_, place, modified, done, found⟩

end Project

end ImportAudit
