import ImportAudit.Proofs.Scan.Contents

/-!
# The names in shared records

Every record names the file that it was read from by its path below the root of the scan. The
cache keeps records with the names of the scan that read the file, and serves them to any scan
that comes to the same path. So whatever scans shared a cache, every record of an index has a name
by which one of them found the path of its file.
-/

namespace ImportAudit

/-- Every record of an extraction names the file. -/
structure Extraction.LabelledBy (result : Extraction) (file : String) : Prop where
  imports : result.imports.file = file
  declarations : ∀ declaration ∈ result.declarations, declaration.file = file

theorem Declaration.file_of_mem_inLines
    {file : String} {markers : List Marker} {number : Nat} {lines : List (List Char)}
    {declaration : Declaration} (member : declaration ∈ inLines file markers number lines) :
    declaration.file = file := by
  induction lines generalizing number with
  | nil => cases member
  | cons line rest inductionHypothesis =>
    rw [inLines] at member
    split at member
    · rcases List.mem_cons.mp member with rfl | later
      · rfl
      · exact inductionHypothesis later
    · exact inductionHypothesis member

theorem Extraction.ofSource_labelledBy (settings : Extraction.Settings) (file source : String) :
    (ofSource settings file source).LabelledBy file := by
  refine ⟨rfl, fun declaration member => ?_⟩
  by_cases scans : settings.scansDeclarations file = true
  · rw [ofSource, if_pos scans] at member
    exact Declaration.file_of_mem_inLines member
  · rw [ofSource, if_neg scans] at member
    cases member

theorem Extraction.ofContent_labelledBy
    {settings : Extraction.Settings} {file : String} {content : ByteArray} {result : Extraction}
    (found : ofContent settings file content = .ok result) : result.LabelledBy file := by
  unfold ofContent at found
  split at found
  · cases found
    exact ofSource_labelledBy settings file _
  · cases found

/-- Every record of an index names the file that it is filed under. -/
structure Index.OwnLabels (index : Index) : Prop where
  imports : ∀ file ∈ index.files,
    ∃ record, index.imports.lookup file = some record ∧ record.file = file
  declarations : ∀ file ∈ index.files,
    ∀ declaration ∈ (index.declarations.lookup file).getD [], declaration.file = file

theorem Index.OwnLabels.mem_files
    {index : Index} (own : index.OwnLabels) :
    (∀ record ∈ index.importsInOrder, record.file ∈ index.files) ∧
      ∀ declaration ∈ index.declarationsInOrder, declaration.file ∈ index.files := by
  constructor
  · intro record member
    obtain ⟨file, listed, filed⟩ := List.mem_filterMap.mp member
    obtain ⟨own, filedOwn, named⟩ := own.imports file listed
    rw [filed, Option.some.injEq] at filedOwn
    rw [filedOwn, named]
    exact listed
  · intro declaration member
    obtain ⟨file, listed, filed⟩ := List.mem_flatMap.mp member
    rw [own.declarations file listed declaration filed]
    exact listed

namespace Scan

theorem mem_of_lookup
    {α : Type} {filed : List (String × α)} {file : String} {value : α}
    (looked : filed.lookup file = some value) : (file, value) ∈ filed := by
  obtain ⟨before, after, rfl, _⟩ := List.lookup_eq_some_iff.mp looked
  exact List.mem_append_right before List.mem_cons_self

/-- An index that is put together from labelled results labels every record by its own file. -/
theorem assemble_ownLabels
    {results : List (String × Extraction × Bool)} {files : List String}
    (complete : results.map (·.1) = files)
    (labelled : ∀ found ∈ results, found.2.1.LabelledBy found.1)
    (root componentExtension : String) :
    (assemble root componentExtension files results).OwnLabels where
  imports := by
    intro file (listed : file ∈ files)
    have filed : ∃ pair ∈ results.map fun found => (found.1, found.2.1.imports),
        (file == pair.1) = true := by
      rw [← complete] at listed
      obtain ⟨found, isFound, rfl⟩ := List.mem_map.mp listed
      exact ⟨_, List.mem_map_of_mem isFound, beq_self_eq_true _⟩
    obtain ⟨record, looked⟩ := Option.isSome_iff_exists.mp (List.lookup_isSome_iff.mpr filed)
    refine ⟨record, looked, ?_⟩
    obtain ⟨found, isFound, same⟩ := List.mem_map.mp (mem_of_lookup looked)
    cases same
    exact (labelled found isFound).imports
  declarations := by
    intro file _ declaration member
    cases looked : (assemble root componentExtension files results).declarations.lookup file with
    | none =>
      rw [looked] at member
      cases member
    | some declared =>
      rw [looked] at member
      obtain ⟨⟨name, result, cached⟩, isFound, same⟩ :=
        List.mem_filterMap.mp (mem_of_lookup looked)
      by_cases empty : result.declarations.isEmpty = true
      · simp [empty] at same
      · simp only [empty, Bool.false_eq_true, if_false, Option.some.injEq, Prod.mk.injEq] at same
        obtain ⟨rfl, rfl⟩ := same
        exact (labelled _ isFound).declarations declaration member

/-- The results gathered from messages are those of their jobs, in order. -/
theorem mem_resultsOf
    {messages : List Message} {results : List (String × Extraction × Bool)}
    (gathered : resultsOf messages = .ok results) :
    results.map (·.1) = messages.map (·.job.file) ∧
      ∀ found ∈ results, ∃ message ∈ messages,
        message.job.file = found.1 ∧ message.outcome = .ok found.2 := by
  induction messages generalizing results with
  | nil =>
    cases gathered
    simp
  | cons message rest inductionHypothesis =>
    obtain ⟨found, others, outcome, restGathered, rfl⟩ := resultsOf_cons_ok gathered
    obtain ⟨sameFiles, ofRest⟩ := inductionHypothesis restGathered
    refine ⟨by simp [sameFiles], List.forall_mem_cons.mpr ⟨?_, fun other member => ?_⟩⟩
    · exact ⟨message, List.mem_cons_self, rfl, outcome⟩
    · obtain ⟨sender, isSender, named, brought⟩ := ofRest other member
      exact ⟨sender, List.mem_cons_of_mem message isSender, named, brought⟩

/-! ## Which names a cache can have -/

structure Asked where
  settings : Extraction.Settings
  tree : FileTree
  root : String
  options : Options

namespace Asked

/-- The scan comes to a file of this name. -/
def Finds (asked : Asked) (file : String) : Prop :=
  ∃ files, discovered asked.tree asked.root asked.options = .ok files ∧ file ∈ files

def key (asked : Asked) (file : String) : String :=
  Cache.Result.key asked.settings.fingerprint (Path.join [asked.root, file])

def Returns (asked : Asked) (cache : Cache.Result) (cancelled : Bool) (verdict : Verdict)
    (after : Option Cache.Result) : Prop :=
  Builds (some cache) asked.settings asked.tree asked.root asked.options cancelled verdict after

end Asked

/-- A result with the name by which one of the scans found a file of this key. -/
inductive Attributed (scans : List Asked) (key : String) (result : Extraction) : Prop
  | found {asked : Asked} {file : String} (listed : asked ∈ scans) (finds : asked.Finds file)
      (sameKey : key = asked.key file) (labelled : result.LabelledBy file) :
      Attributed scans key result

theorem Attributed.cons
    {scans : List Asked} {key : String} {result : Extraction} (asked : Asked)
    (attributed : Attributed scans key result) : Attributed (asked :: scans) key result := by
  obtain ⟨listed, finds, sameKey, labelled⟩ := attributed
  exact .found (List.mem_cons_of_mem asked listed) finds sameKey labelled

/-- Results have names by which scans found their files, those that are served as well as those
that are read. -/
def labelContract (asked : Asked) (scans : List Asked) : Contract where
  Sound store :=
    store.settings = asked.settings ∧ ∃ cache, store.results = some cache ∧
      ∀ entry ∈ cache.entries, Attributed (asked :: scans) entry.key entry.result
  Stamped _ _ := True
  Brings job outcome := ∀ found, outcome = .ok found →
    Attributed (asked :: scans) (Cache.Result.key asked.settings.fingerprint job.path) found.1

variable {asked : Asked} {scans : List Asked} {job : Job}

/-- A job that is read changes at most the content cache, and what it brings comes from a
content. -/
theorem Job.extract_cases
    {store after : Store} {outcome : Except Fault Extraction} {log : List Log.Record}
    (extracted : job.extract store = (outcome, after, log)) :
    (∃ contents, after = { store with contents }) ∧ ∀ result, outcome = .ok result →
      ∃ content, Extraction.ofContent store.settings job.file content = .ok result := by
  unfold Job.extract at extracted
  simp only [Prod.mk.injEq] at extracted
  obtain ⟨rfl, rfl, _⟩ := extracted
  refine ⟨⟨_, rfl⟩, fun result succeeded => ?_⟩
  split at succeeded
  · cases succeeded
  · rename_i content _
    split at succeeded
    · cases succeeded
    · rename_i read
      cases succeeded
      exact ⟨content, read⟩

/-- What a job finds in the cache was left there by a scan, and stays there for the next. -/
theorem labelContract_settled
    {store after : Store} {outcome : Except Fault (Extraction × Bool)}
    (sound : (labelContract asked scans).Sound store)
    (looked : job.look store = (.settled outcome, after)) :
    (labelContract asked scans).Sound after ∧ (labelContract asked scans).Brings job outcome := by
  obtain ⟨sameSettings, cache, shared, attributed⟩ := sound
  rcases Job.settled_cases shared looked with
    ⟨fault, _, rfl, rfl⟩ | ⟨node, entry, touched, _, member, sameKey, _, _, rfl, rfl, held⟩
  · exact ⟨⟨sameSettings, cache, shared, attributed⟩, fun found served => by cases served⟩
  · refine ⟨⟨sameSettings, touched, rfl, fun kept isKept => attributed kept (held kept isKept)⟩, ?_⟩
    rintro found served
    cases served
    rw [← sameSettings, ← sameKey]
    exact attributed entry member

/-- What a job keeps is kept for its own scan. -/
theorem labelContract_kept
    {store : Store} {stamp : Option Stamp} {result : Extraction}
    (sound : (labelContract asked scans).Sound store)
    (brings : (labelContract asked scans).Brings job (.ok (result, false))) :
    (labelContract asked scans).Sound (job.keep stamp result store) := by
  obtain ⟨sameSettings, cache, shared, attributed⟩ := sound
  cases stamp with
  | none => exact ⟨sameSettings, cache, shared, attributed⟩
  | some stamp =>
    simp only [Job.keep, shared]
    refine ⟨sameSettings, _, rfl, fun entry member => ?_⟩
    rcases Cache.Result.mem_of_mem_put member with rfl | earlier
    · rw [sameSettings]
      exact brings (result, false) rfl
    · exact attributed entry earlier

/-- A job of the scan keeps the contract: what it reads has its own name. -/
theorem labelContract_binds
    (finds : asked.Finds job.file) (placed : job.path = Path.join [asked.root, job.file]) :
    (labelContract asked scans).Binds job where
  settled := labelContract_settled
  unread := by
    rintro store after stamp ⟨sameSettings, cache, shared, attributed⟩ looked
    obtain ⟨node, touched, _, _, rfl, held⟩ := Job.unread_cases shared looked
    exact ⟨⟨sameSettings, touched, rfl, fun kept isKept => attributed kept (held kept isKept)⟩,
      trivial⟩
  failed := by
    rintro store after stamp fault log ⟨sameSettings, cache, shared, attributed⟩ _ extracted
    obtain ⟨⟨contents, rfl⟩, _⟩ := Job.extract_cases extracted
    exact ⟨⟨sameSettings, cache, shared, attributed⟩, fun found brought => by cases brought⟩
  extracted := by
    rintro store after stamp result log ⟨sameSettings, cache, shared, attributed⟩ _ extracted
    obtain ⟨⟨contents, rfl⟩, ofFile⟩ := Job.extract_cases extracted
    refine ⟨⟨sameSettings, cache, shared, attributed⟩, ?_⟩
    rintro found brought
    cases brought
    obtain ⟨content, read⟩ := ofFile result rfl
    refine .found List.mem_cons_self finds ?_ (Extraction.ofContent_labelledBy read)
    rw [placed, Asked.key]
  kept := fun sound _ brings => labelContract_kept sound brings

/-! ## Histories -/

/-- A result cache that some scans, the latest first, have shared since it was made. -/
inductive SharedBy (capacity : Int) : List Asked → Cache.Result → Prop
  | made {cache : Cache.Result} (new : Cache.Result.new capacity = .ok cache) :
      SharedBy capacity [] cache
  | scanned {scans : List Asked} {asked : Asked} {cache after : Cache.Result} {cancelled : Bool}
      {verdict : Verdict} (earlier : SharedBy capacity scans cache)
      (returns : asked.Returns cache cancelled verdict (some after)) :
      SharedBy capacity (asked :: scans) after

section Returned

variable {cache : Cache.Result} {cancelled : Bool} {verdict : Verdict}
  {after : Option Cache.Result}

/-- A scan ends with the fault of its discovery, or as its run over the files found concluded. -/
theorem Asked.Returns.concluded
    (attributed : ∀ entry ∈ cache.entries, Attributed scans entry.key entry.result)
    (returns : asked.Returns cache cancelled verdict after) :
    ((∃ fault, discovered asked.tree asked.root asked.options = .error fault ∧
        verdict = .failed (.during .discovery fault)) ∨
      ∃ files, discovered asked.tree asked.root asked.options = .ok files ∧
        Run.Concluded (labelContract asked scans) asked.root asked.options files
          (jobsOf asked.root files) cancelled verdict) ∧
    ∃ later, after = some later ∧
      ∀ entry ∈ later.entries, Attributed (asked :: scans) entry.key entry.result := by
  have sound : (labelContract asked scans).Sound
      (freshStore asked.settings asked.tree (some cache)) :=
    ⟨rfl, cache, rfl, fun entry member => (attributed entry member).cons asked⟩
  have binds : ∀ files, discovered asked.tree asked.root asked.options = .ok files →
      ∀ job ∈ jobsOf asked.root files, (labelContract asked scans).Binds job := by
    intro files found job member
    obtain ⟨⟨file, number⟩, numbered, rfl⟩ := List.mem_map.mp member
    have listed : file ∈ files := (List.mem_zipIdx numbered).2.2 ▸ List.getElem_mem _
    exact labelContract_binds ⟨files, found, listed⟩ rfl
  obtain ⟨concluded, store, soundAfter, results⟩ := Builds.concluded returns sound binds
  obtain ⟨_, later, shared, laterAttributed⟩ := soundAfter
  exact ⟨concluded, later, results.symm.trans shared, laterAttributed⟩

/-- Every entry of a shared cache was stored by one of the scans that shared it. -/
theorem attributed_of_sharedBy
    {capacity : Int} (shared : SharedBy capacity scans cache) :
    ∀ entry ∈ cache.entries, Attributed scans entry.key entry.result := by
  induction shared with
  | made new =>
    intro entry member
    unfold Cache.Result.new at new
    split at new
    · cases new
    · cases new
      cases member
  | scanned earlier returns inductionHypothesis =>
    obtain ⟨_, later, same, attributed⟩ := returns.concluded inductionHypothesis
    cases same
    exact attributed

/-- An index is assembled from results with names by which scans found their files. -/
theorem Asked.Returns.assembled
    {capacity : Int} {index : Index} {stats : ScanStats} (shared : SharedBy capacity scans cache)
    (returns : asked.Returns cache cancelled (.built index stats) after) :
    ∃ files results, discovered asked.tree asked.root asked.options = .ok files ∧
      index = assemble asked.root asked.options.componentExtension files results ∧
        results.map (·.1) = files ∧
          ∀ found ∈ results, Attributed (asked :: scans) (asked.key found.1) found.2.1 := by
  obtain ⟨concluded, _⟩ := returns.concluded (attributed_of_sharedBy shared)
  rcases concluded with ⟨fault, _, failed⟩ | ⟨files, found, ⟨_, stopped⟩ | complete⟩
  · cases failed
  · cases stopped
  · obtain ⟨messages, cacheHits, sameJobs, brings, reported, _⟩ := complete
    unfold builtFrom at reported
    cases gathered : resultsOf messages with
    | error fault =>
      rw [gathered] at reported
      cases reported
    | ok results =>
      rw [gathered] at reported
      cases reported
      obtain ⟨sameFiles, sent⟩ := mem_resultsOf gathered
      refine ⟨files, results, found, rfl, ?_, fun result member => ?_⟩
      · have jobFiles := congrArg (List.map (·.file)) sameJobs
        rw [jobsOf_files, List.map_map] at jobFiles
        exact sameFiles.trans jobFiles
      · obtain ⟨message, isMessage, named, brought⟩ := sent result member
        have ofJob := brings message isMessage result.2 brought
        have isJob : message.job ∈ jobsOf asked.root files :=
          sameJobs ▸ List.mem_map_of_mem isMessage
        rw [jobsOf_placed message.job isJob, named] at ofJob
        exact ofJob

end Returned

end Scan

end ImportAudit
