import ImportAudit.Proofs.Cache.Shared

/-!
# What a successful scan holds

The index of a scan that succeeds is about the texts of the discovered files and nothing else:
its surface is what their texts import, its declarations are what they declare, file by file. A
result cache that earlier scans have shared makes no difference.
-/

namespace ImportAudit

/-- The text of a file below a root; a file that cannot be read has none. -/
def FileTree.textAt? (tree : FileTree) (root file : String) : Option String :=
  (tree.read (Path.join [root, file])).toOption.bind String.fromUTF8?

/-- The text of a file below a root, empty where there is none. -/
def FileTree.textAt (tree : FileTree) (root file : String) : String :=
  (tree.textAt? root file).getD ""

theorem FileTree.textAt_eq
    {tree : FileTree} {root file source : String} (text : tree.textAt? root file = some source) :
    tree.textAt root file = source := by
  rw [FileTree.textAt, text]
  rfl

theorem FileTree.exists_content
    {tree : FileTree} {root file : String} (readable : (tree.textAt? root file).isSome = true) :
    ∃ content source, tree.read (Path.join [root, file]) = .ok content ∧
      String.fromUTF8? content = some source := by
  obtain ⟨source, text⟩ := Option.isSome_iff_exists.mp readable
  obtain ⟨content, read, decoded⟩ := Option.bind_eq_some_iff.mp text
  exact ⟨content, source, ok_of_toOption read, decoded⟩

/-- The index is about the texts of its files. -/
structure Index.Reflects (index : Index) (settings : Extraction.Settings) (tree : FileTree)
    (root : String) : Prop where
  readable : ∀ file ∈ index.files, (tree.textAt? root file).isSome = true
  surface : index.surface = index.files.flatMap fun file =>
    importNames settings.parseMode (tree.textAt root file)
  declared : index.declarationsInOrder.map (·.name) = index.files.flatMap fun file =>
    (Extraction.ofSource settings file (tree.textAt root file)).declarations.map (·.name)

theorem Index.Reflects.of_agrees
    {index other : Index} {settings : Extraction.Settings} {tree : FileTree} {root : String}
    (reflects : other.Reflects settings tree root) (agrees : index.Agrees other) :
    index.Reflects settings tree root where
  readable := agrees.files ▸ reflects.readable
  surface := by rw [agrees.surface, reflects.surface, agrees.files]
  declared := by rw [agrees.declarationNames, reflects.declared, agrees.files]

namespace Scan

variable {settings : Extraction.Settings} {tree : FileTree} {root : String} {options : Options}

/-! ## Looking up what was filed -/

theorem lookup_filed
    {α : Type} (filed : String → α) {file : String} {files : List String} (member : file ∈ files) :
    (files.map fun other => (other, filed other)).lookup file = some (filed file) := by
  induction files with
  | nil => cases member
  | cons first others inductionHypothesis =>
    rw [List.map_cons, List.lookup_cons]
    by_cases here : file = first
    · simp [here]
    · have differs : (file == first) = false := by simpa using here
      rw [differs]
      exact inductionHypothesis ((List.mem_cons.mp member).resolve_left here)

/-- Nothing is lost by filing only what is not empty. -/
theorem lookup_filed_nonempty
    {α : Type} (filed : String → List α) (file : String) (files : List String) :
    ((files.filterMap fun other =>
      if (filed other).isEmpty then none else some (other, filed other)).lookup file).getD [] =
        if file ∈ files then filed file else [] := by
  induction files with
  | nil => rfl
  | cons first others inductionHypothesis =>
    by_cases empty : (filed first).isEmpty = true
    · rw [List.filterMap_cons_none (by rw [if_pos empty]), inductionHypothesis]
      have vacuous : filed first = [] := List.isEmpty_iff.mp empty
      -- The file may be listed again, but what it gives is empty there as well.
      by_cases here : file = first
      · simp [here, vacuous]
      · simp [here]
    · rw [List.filterMap_cons_some (by rw [if_neg empty]), List.lookup_cons]
      by_cases here : file = first
      · simp [here]
      · have differs : (file == first) = false := by simpa using here
        rw [differs]
        simpa [here] using inductionHypothesis

/-! ## Scans without a result cache -/

theorem jobsOf_placed
    {files : List String} : ∀ job ∈ jobsOf root files, job.path = Path.join [root, job.file] := by
  intro job member
  obtain ⟨numbered, _, rfl⟩ := List.mem_map.mp member
  rfl

/-- What the files bring when all of them are read as text. -/
def textResults (settings : Extraction.Settings) (tree : FileTree) (root : String)
    (files : List String) : List (String × Extraction × Bool) :=
  files.map fun file => (file, .ofSource settings file (tree.textAt root file), false)

theorem freshOutcome_of_readable
    {job : Job} (placed : job.path = Path.join [root, job.file])
    (readable : (tree.textAt? root job.file).isSome = true) :
    job.freshOutcome settings tree =
      .ok (.ofSource settings job.file (tree.textAt root job.file)) := by
  obtain ⟨content, source, read, decoded⟩ := FileTree.exists_content readable
  have text : tree.textAt? root job.file = some source := by
    simp [FileTree.textAt?, read, Except.toOption, decoded]
  rw [FileTree.textAt_eq text]
  exact Job.freshOutcome_of_read (placed ▸ read) decoded

theorem readable_of_freshOutcome
    {job : Job} (placed : job.path = Path.join [root, job.file]) {result : Extraction}
    (fresh : job.freshOutcome settings tree = .ok result) :
    (tree.textAt? root job.file).isSome = true := by
  obtain ⟨content, source, read, decoded, _⟩ := Job.read_of_freshOutcome fresh
  rw [placed] at read
  simp [FileTree.textAt?, read, Except.toOption, decoded]

/-- Jobs whose files can all be read bring the results of their texts. -/
theorem resultsOf_of_readable
    (settings : Extraction.Settings) {jobs : List Job}
    (placed : ∀ job ∈ jobs, job.path = Path.join [root, job.file])
    (readable : ∀ job ∈ jobs, (tree.textAt? root job.file).isSome = true) :
    resultsOf (jobs.map (Job.freshMessage settings tree)) =
      .ok (textResults settings tree root (jobs.map (·.file))) := by
  induction jobs with
  | nil => rfl
  | cons job others inductionHypothesis =>
    obtain ⟨isPlaced, othersPlaced⟩ := List.forall_mem_cons.mp placed
    obtain ⟨hasText, othersReadable⟩ := List.forall_mem_cons.mp readable
    have gathered := inductionHypothesis othersPlaced othersReadable
    have fresh : (job.freshMessage settings tree).outcome =
        .ok (.ofSource settings job.file (tree.textAt root job.file), false) := by
      rw [Job.freshMessage, freshOutcome_of_readable isPlaced hasText]
      rfl
    rw [List.map_cons, resultsOf, fresh, gathered]
    rfl

/-- Results are gathered only where every file could be read. -/
theorem readable_of_resultsOf
    {jobs : List Job} (placed : ∀ job ∈ jobs, job.path = Path.join [root, job.file])
    {results : List (String × Extraction × Bool)}
    (gathered : resultsOf (jobs.map (Job.freshMessage settings tree)) = .ok results) :
    ∀ job ∈ jobs, (tree.textAt? root job.file).isSome = true := by
  induction jobs generalizing results with
  | nil => simp
  | cons job others inductionHypothesis =>
    obtain ⟨isPlaced, othersPlaced⟩ := List.forall_mem_cons.mp placed
    obtain ⟨found, more, outcome, restGathered, _⟩ := resultsOf_cons_ok gathered
    refine List.forall_mem_cons.mpr ⟨?_, inductionHypothesis othersPlaced restGathered⟩
    cases fresh : job.freshOutcome settings tree with
    | error fault =>
      rw [Job.freshMessage, fresh] at outcome
      cases outcome
    | ok result => exact readable_of_freshOutcome isPlaced fresh

theorem assemble_importsInOrder
    (settings : Extraction.Settings) (tree : FileTree) (root componentExtension : String)
    (files : List String) :
    (assemble root componentExtension files
      (textResults settings tree root files)).importsInOrder =
        files.map fun file =>
          (Extraction.ofSource settings file (tree.textAt root file)).imports := by
  rw [Index.importsInOrder, ← List.filterMap_eq_map]
  refine List.filterMap_congr fun file (member : file ∈ files) => ?_
  have filed := lookup_filed
    (fun file => (Extraction.ofSource settings file (tree.textAt root file)).imports) member
  simp only [assemble, textResults, List.map_map, Function.comp_def, filed]

theorem lookup_assembled
    (settings : Extraction.Settings) (tree : FileTree) (root componentExtension : String)
    {file : String} {files : List String} (member : file ∈ files) :
    ((assemble root componentExtension files
      (textResults settings tree root files)).declarations.lookup file).getD [] =
        (Extraction.ofSource settings file (tree.textAt root file)).declarations := by
  have filed := lookup_filed_nonempty
    (fun file => (Extraction.ofSource settings file (tree.textAt root file)).declarations)
    file files
  rw [if_pos member] at filed
  simp only [assemble, textResults, List.filterMap_map, Function.comp_def]
  exact filed

/-- An index put together from the texts of its files reflects them. -/
theorem assemble_reflects
    {files : List String}
    (readable : ∀ file ∈ files, (tree.textAt? root file).isSome = true)
    (componentExtension : String) :
    (assemble root componentExtension files (textResults settings tree root files)).Reflects
      settings tree root where
  readable := readable
  surface := by
    rw [Index.surface, assemble_importsInOrder, List.flatMap_map]
    rfl
  declared := by
    rw [Index.declarationsInOrder, List.map_flatMap]
    refine List.flatMap_congr fun file (member : file ∈ files) => ?_
    rw [lookup_assembled settings tree root componentExtension member]

/-- What a scan brings that has read the texts of the files. -/
def textBuilt (settings : Extraction.Settings) (tree : FileTree) (root : String)
    (options : Options) (files : List String) : Built :=
  let results := textResults settings tree root files
  let index := assemble root options.componentExtension files results
  ⟨index, statsOf options.workers files results index, files⟩

/-- A scan without a result cache succeeds when it can read every file that it discovers. -/
theorem build_textBuilt
    (settings : Extraction.Settings) {files : List String}
    (found : discovered tree root options = .ok files)
    (readable : ∀ job ∈ jobsOf root files, (tree.textAt? root job.file).isSome = true) :
    (build none settings tree root options false).result =
      .ok (textBuilt settings tree root options files) := by
  have gathered := resultsOf_of_readable settings jobsOf_placed readable
  rw [jobsOf_files] at gathered
  rw [build_fresh found, builtFrom, gathered]
  rfl

theorem build_of_readable
    (settings : Extraction.Settings) {files : List String}
    (found : discovered tree root options = .ok files)
    (readable : ∀ job ∈ jobsOf root files, (tree.textAt? root job.file).isSome = true) :
    ∃ built, (build none settings tree root options false).result = .ok built ∧
      built.index = assemble root options.componentExtension files
        (textResults settings tree root files) :=
  ⟨_, build_textBuilt settings found readable, rfl⟩

/-- A scan without a result cache that discovers one file succeeds if the file has a text. -/
theorem build_of_text
    (settings : Extraction.Settings) {file source : String}
    (found : discovered tree root options = .ok [file])
    (text : tree.textAt? root file = some source) :
    ∃ built, (build none settings tree root options false).result = .ok built ∧
      built.index = assemble root options.componentExtension [file]
        (textResults settings tree root [file]) := by
  apply build_of_readable settings found
  intro job member
  have isFile : job.file ∈ (jobsOf root [file]).map (·.file) := List.mem_map_of_mem member
  rw [jobsOf_files, List.mem_singleton] at isFile
  rw [isFile, text]
  rfl

/-- A successful scan without a result cache has read the texts of the files that were
discovered. -/
theorem build_assembled
    {built : Built}
    (succeeded : (build none settings tree root options false).result = .ok built) :
    ∃ files, discovered tree root options = .ok files ∧
      (∀ file ∈ files, (tree.textAt? root file).isSome = true) ∧
        built = textBuilt settings tree root options files := by
  cases found : discovered tree root options with
  | error fault =>
    rw [build_undiscovered found] at succeeded
    cases succeeded
  | ok files =>
    have readable : ∀ job ∈ jobsOf root files, (tree.textAt? root job.file).isSome = true := by
      rw [build_fresh found, builtFrom] at succeeded
      cases gathered : resultsOf ((jobsOf root files).map (Job.freshMessage settings tree)) with
      | error fault =>
        rw [gathered] at succeeded
        cases succeeded
      | ok results => exact readable_of_resultsOf jobsOf_placed gathered
    rw [build_textBuilt settings found readable] at succeeded
    cases succeeded
    refine ⟨files, rfl, ?_, rfl⟩
    rw [← jobsOf_files root files]
    exact List.forall_mem_map.mpr readable

/-- The index of a successful scan without a result cache is about the texts of its files. -/
theorem build_reflects
    {built : Built}
    (succeeded : (build none settings tree root options false).result = .ok built) :
    built.index.Reflects settings tree root := by
  obtain ⟨files, _, readable, assembled⟩ := build_assembled succeeded
  rw [assembled]
  exact assemble_reflects readable options.componentExtension

/-! ## Scans with any cache that is still truthful -/

/-- What a scan brings although it was cancelled, it brings uncancelled. -/
theorem build_of_cancelled
    {cache : Option Cache.Result} {cancelled : Bool} {built : Built}
    (succeeded : (build cache settings tree root options cancelled).result = .ok built) :
    (build cache settings tree root options false).result = .ok built := by
  cases cancelled with
  | false => exact succeeded
  | true =>
    unfold build at succeeded ⊢
    cases found : Discovery.files tree root ⟨Discovery.sourceExtensions, options.exclude⟩ with
    | error fault =>
      rw [found] at succeeded
      cases succeeded
    | ok files =>
      cases files with
      | nil => simpa [found] using succeeded
      | cons first others => simp [found] at succeeded

/-- The components of a successful scan are those of its files. -/
theorem build_components
    {cache : Option Cache.Result} {cancelled : Bool} {built : Built}
    (succeeded : (build cache settings tree root options cancelled).result = .ok built) :
    built.index.components =
      (Catalog.ofFiles built.index.files options.componentExtension).components := by
  have uncancelled := build_of_cancelled succeeded
  cases found : discovered tree root options with
  | error fault =>
    rw [build_undiscovered found] at uncancelled
    cases uncancelled
  | ok files =>
    rw [build_discovered found, builtFrom] at uncancelled
    split at uncancelled
    · cases uncancelled
    · cases uncancelled
      rfl

/-- A scan may use a cache: none, or one that earlier scans have shared while size and time
determined the content of a file. -/
inductive Usable (markers : List Marker) (tree : FileTree) (root : String) :
    Option Cache.Result → Prop
  | none : Usable markers tree root none
  | shared {capacity : Int} {trees : List FileTree} {cache : Cache.Result}
      (shares : Shares markers capacity trees cache) (determined : Determined (tree :: trees))
      (directory : DirectoryRoot tree root) : Usable markers tree root (some cache)

theorem build_shared_reflects
    {markers : List Marker} {mode : ParseMode} {capacity : Int} {trees : List FileTree}
    {cache : Cache.Result} (shares : Shares markers capacity trees cache)
    (determined : Determined (tree :: trees)) (named : mode.Named)
    (directory : DirectoryRoot tree root) {built : Built}
    (succeeded :
      (build (some cache) (.ofMode markers mode) tree root options false).result = .ok built) :
    built.index.Reflects (.ofMode markers mode) tree root := by
  cases found : discovered tree root options with
  | error fault =>
    rw [build_undiscovered found] at succeeded
    cases succeeded
  | ok files =>
    have sound := cachedContract_sound mode tree (truthful_of_shares determined.tail shares)
    obtain ⟨sameJobs, brings, _⟩ := runJobs_of_binds
      (fun job member =>
        cachedContract_binds determined named (labelled_of_mem_jobsOf directory found member))
      sound
    rw [build_discovered found, builtFrom] at succeeded
    rcases resultsOf_faithful brings with
      ⟨file, inner, other, failed, _⟩ | ⟨results, fresh, done, freshDone, same⟩
    · rw [failed] at succeeded
      cases succeeded
    · rw [done] at succeeded
      cases succeeded
      rw [sameJobs] at freshDone
      have freshBuilt : (build none (.ofMode markers mode) tree root options false).result = _ :=
        build_fresh found
      rw [builtFrom, freshDone] at freshBuilt
      exact (build_reflects freshBuilt).of_agrees
        (assemble_agrees same root options.componentExtension files)

/-- The index of a successful scan is about the texts of its files, with or without a cache. -/
theorem reflects_of_usable
    {markers : List Marker} {mode : ParseMode} {cache : Option Cache.Result}
    (usable : Usable markers tree root cache) (named : mode.Named) {cancelled : Bool}
    {built : Built}
    (succeeded :
      (build cache (.ofMode markers mode) tree root options cancelled).result = .ok built) :
    built.index.Reflects (.ofMode markers mode) tree root := by
  have uncancelled := build_of_cancelled succeeded
  cases usable with
  | none => exact build_reflects uncancelled
  | shared shares determined directory =>
    exact build_shared_reflects shares determined named directory uncancelled

end Scan

end ImportAudit
