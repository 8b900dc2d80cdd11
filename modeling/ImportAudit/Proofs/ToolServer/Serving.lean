import ImportAudit.Proofs.PlainNames
import ImportAudit.ToolServer

/-!
# The cache of a running server

A server answers its calls one after the other, about any projects and under any modes, and keeps
one result cache for all of them. Whatever it has answered, a scan of a later call ends like one
that reads every file, as long as size and time tell the contents of a path apart.
-/

namespace ImportAudit

theorem Path.base_last
    {path : String} {front : List Char} {c : Char} (shape : path.toList = front ++ [c])
    (notSlash : c ≠ '/') : ∃ start, (Path.base path).toList = start ++ [c] := by
  have passes : (c == '/') = false := by simpa using notSlash
  have named : path ≠ "" := by
    rintro rfl
    simp at shape
  have kept : Path.dropTrailingSlashes path.toList = front ++ [c] := by
    rw [Path.dropTrailingSlashes, shape, List.reverse_append, List.reverse_singleton,
      List.singleton_append, List.dropWhile_cons_of_neg (by simp [passes]), List.reverse_cons,
      List.reverse_reverse]
  have last : Path.afterLastSlash (front ++ [c]) =
      (front.reverse.takeWhile (· != '/')).reverse ++ [c] := by
    rw [Path.afterLastSlash, List.reverse_append, List.reverse_singleton, List.singleton_append,
      List.takeWhile_cons_of_pos (by simp [bne, passes]), List.reverse_cons]
  refine ⟨(front.reverse.takeWhile (· != '/')).reverse, ?_⟩
  simp only [Path.base, named, kept, last]
  simp

namespace Project

/-- The folder of the sources of a project has no extension of source files. -/
theorem sourceFolder_plain (project : String) :
    Discovery.hasExtension Discovery.sourceExtensions (Path.base (sourceFolder project)) =
      false := by
  have names : Path.NameEnding "src".toList := ⟨by decide, ['s', 'r'], 'c', rfl, by decide⟩
  have ends : Text.endsWith "src".toList "src".toList = true := by decide
  obtain ⟨front, whole⟩ := Text.endsWith_iff.mp (Path.endsWith_join names project ends)
  have shape : (sourceFolder project).toList = (front ++ ['s', 'r']) ++ ['c'] := by
    rw [sourceFolder, whole, List.append_assoc]
    rfl
  obtain ⟨start, base⟩ := Path.base_last shape (by decide)
  rw [Discovery.hasExtension, List.any_eq_false]
  intro extension listed found
  obtain ⟨stem, same⟩ := Text.endsWith_iff.mp found
  rw [base] at same
  have lasts := congrArg List.getLast? same
  rcases List.mem_pair.mp listed with rfl | rfl
  · simp at lasts
  · simp at lasts

end Project

namespace Scan

variable {markers : List Marker} {mode : ParseMode} {tree : FileTree} {trees : List FileTree}

/-- What is no directory has no source files below it, so nothing has to be known of the root. -/
theorem labelled_of_mem_sources
    {project : String} {options : Options} {files : List String}
    (found : discovered tree (Project.sourceFolder project) options = .ok files) {job : Job}
    (member : job ∈ jobsOf (Project.sourceFolder project) files) :
    Text.endsWith ".ts".toList job.file.toList = Text.endsWith ".ts".toList job.path.toList := by
  by_cases directory : DirectoryRoot tree (Project.sourceFolder project)
  · exact labelled_of_mem_jobsOf directory found member
  · unfold DirectoryRoot at directory
    push Not at directory
    obtain ⟨node, top, notDirectory⟩ := directory
    have none : files = [] := by
      unfold discovered Discovery.files at found
      split at found
      · cases found
      · cases node with
        | directory entries => exact absurd rfl notDirectory
        | file content modified => simpa [top, Project.sourceFolder_plain] using found.symm
        | link target => simpa [top, Project.sourceFolder_plain] using found.symm
    rw [none] at member
    cases member

/-! ## Sincere caches -/

theorem endsLike_refl (result : Except Fault Built) : (Verdict.of 0 result).EndsLike result := by
  cases result with
  | error fault => exact Or.inl rfl
  | ok built => exact ⟨rfl, rfl, rfl, fun _ => rfl, fun _ => rfl⟩

theorem runJobs_uncached (settings : Extraction.Settings) (tree : FileTree) (jobs : List Job) :
    (runJobs (freshStore settings tree none) jobs).2.1.results = none :=
  (runJobs_of_binds (fun job _ => freshContract_binds settings tree job)
    (freshContract_sound settings tree)).2.2.2.2.1

theorem build_cache_undiscovered
    {settings : Extraction.Settings} {root : String} {options : Options} {fault : Fault}
    (found : discovered tree root options = .error fault) (cache : Option Cache.Result) :
    (build cache settings tree root options false).cache = cache := by
  unfold discovered at found
  simp only [build, found]

/-- What is cached, if anything is, was read from one of the trees. -/
def Sincere (markers : List Marker) (trees : List FileTree) (cache : Option Cache.Result) : Prop :=
  ∀ held, cache = some held → ∀ entry ∈ held.entries, Truthful markers trees entry

theorem Sincere.cons
    {cache : Option Cache.Result} (sincere : Sincere markers trees cache) (tree : FileTree) :
    Sincere markers (tree :: trees) cache :=
  fun held same entry member => (sincere held same entry member).cons tree

section Sources

variable {project : String} {options : Options} {cache : Option Cache.Result}

/-- A scan of the sources of a project with a sincere cache ends like one without a cache, and
leaves a sincere cache. -/
theorem build_of_sincere
    (sincere : Sincere markers trees cache) (determined : Determined (tree :: trees))
    (named : mode.Named) :
    (Verdict.of 0 (build cache (.ofMode markers mode) tree (Project.sourceFolder project) options
      false).result).EndsLike
        (build none (.ofMode markers mode) tree (Project.sourceFolder project) options
          false).result ∧
    Sincere markers (tree :: trees) (build cache (.ofMode markers mode) tree
      (Project.sourceFolder project) options false).cache := by
  cases found : discovered tree (Project.sourceFolder project) options with
  | error fault =>
    rw [build_undiscovered found, build_undiscovered found, build_cache_undiscovered found]
    exact ⟨endsLike_refl _, sincere.cons tree⟩
  | ok files =>
    rw [build_fresh found, build_discovered found, build_cache found]
    cases cache with
    | none =>
      rw [runJobs_fresh, runJobs_uncached]
      refine ⟨endsLike_refl _, fun held same => ?_⟩
      cases same
    | some held =>
      obtain ⟨sameJobs, brings, soundAfter⟩ := runJobs_of_binds
        (fun job member =>
          cachedContract_binds determined named (labelled_of_mem_sources found member))
        (cachedContract_sound mode tree (sincere held rfl))
      obtain ⟨_, _, _, later, shared, truthful⟩ := soundAfter
      refine ⟨?_, fun kept same => ?_⟩
      · have endsLike :=
          Verdict.of_endsLike brings 0 (Project.sourceFolder project) options files
        rw [sameJobs] at endsLike
        exact endsLike
      · rw [shared] at same
        cases same
        exact truthful

end Sources

end Scan

namespace ToolServer

/-! ## What a server has cached -/

/-- The markers by which every call of a server finds declarations. -/
def markersOf (config : Config) : List Marker :=
  if config.request.markers.isEmpty then Marker.defaults else config.request.markers

/-- A cache as a server has it that answered calls about some trees, the latest first: it was
started with none, or with a new one. -/
inductive Served (config : Config) : List FileTree → Option Cache.Result → Prop
  | uncached : Served config [] none
  | cached {capacity : Int} {cache : Cache.Result} (new : Cache.Result.new capacity = .ok cache) :
      Served config [] (some cache)
  | called {trees : List FileTree} {cache : Option Cache.Result}
      (earlier : Served config trees cache) (tree : FileTree) (tool : Tool)
      (arguments : Arguments) :
      Served config (tree :: trees) (answer config cache tree tool arguments).cache

section Called

variable {config : Config} {cache : Option Cache.Result} {tree : FileTree}

/-- A cache that one scan for a call has left, or none has touched. -/
def LeftBy (config : Config) (cache : Option Cache.Result) (tree : FileTree)
    (after : Option Cache.Result) : Prop :=
  after = cache ∨ ∃ project options, options.parseMode.Named ∧
    options.markers = markersOf config ∧
      after = (Project.indexWith cache tree project options false).cache

theorem requestOf_markers
    {arguments : Arguments} {request : Project.Request}
    (read : requestOf config arguments = .ok request) :
    request.markers = config.request.markers := by
  unfold requestOf at read
  split at read
  · cases read
  · split at read
    · cases read
    · cases read
      rfl

/-- A request without markers gets the default ones. -/
theorem resolve_markers
    {request : Project.Request} {options : Project.Options}
    (resolved : request.resolve = .ok options) :
    options.markers =
      if request.markers.isEmpty then Marker.defaults else request.markers := by
  unfold Project.Request.resolve at resolved
  split at resolved
  · cases resolved
  · split at resolved
    · cases resolved
    · cases resolved
      rfl

theorem leftBy_index
    (project : String) {request : Project.Request}
    (markers : request.markers = config.request.markers) :
    LeftBy config cache tree (Project.index cache tree project request false).cache := by
  unfold Project.index
  cases resolved : request.resolve with
  | error fault => exact Or.inl rfl
  | ok options =>
    have known := resolve_markers resolved
    rw [markers] at known
    exact Or.inr ⟨project, options, Project.Request.resolve_named resolved, known, rfl⟩

theorem findUnused_cache
    (cache : Option Cache.Result) (tree : FileTree) (project : String)
    (request : Project.Request) :
    (Project.findUnused cache tree project request false).cache =
      (Project.index cache tree project request false).cache := by
  unfold Project.findUnused Project.index
  cases request.resolve <;> rfl

theorem run_cache
    (cache : Option Cache.Result) (tree : FileTree) (project : String)
    (request : Project.Request) (format : String) :
    (Project.run cache tree project request format false).cache =
      (Project.findUnused cache tree project request false).cache := by
  cases searched : (Project.findUnused cache tree project request false).result with
  | error fault => simp only [Project.run, searched]
  | ok audit =>
    cases written : Report.write (Project.findUnused cache tree project request false).tree
        project format audit.findings with
    | error fault => simp only [Project.run, searched, written]
    | ok done => simp only [Project.run, searched, written]

theorem follow_cache
    {α β : Type} (answer : Answer α) (next : α → Except Fault β) :
    (answer.follow next).cache = answer.cache := rfl

theorem leftBy_withScan
    {α : Type} {arguments : Arguments} {scan : String → Project.Request → Answer α}
    (leaves : ∀ project request, request.markers = config.request.markers →
      LeftBy config cache tree (scan project request).cache) :
    LeftBy config cache tree (withScan config cache tree arguments scan).cache := by
  cases named : projectOf config tree arguments with
  | error fault =>
    simp only [withScan, named]
    exact Or.inl rfl
  | ok project =>
    cases read : requestOf config arguments with
    | error fault =>
      simp only [withScan, named, read]
      exact Or.inl rfl
    | ok request =>
      simp only [withScan, named, read]
      exact leaves project request (requestOf_markers read)

theorem leftBy_indexOf (arguments : Arguments) :
    LeftBy config cache tree (indexOf config cache tree arguments).cache := by
  rw [indexOf, follow_cache]
  apply leftBy_withScan
  intro project request markers
  dsimp only
  exact leftBy_index project markers

/-- A search leaves the cache as one scan left it, or untouched. -/
theorem leftBy_findUnused (arguments : Arguments) :
    LeftBy config cache tree (findUnused config cache tree arguments).cache := by
  rw [findUnused, follow_cache]
  apply leftBy_withScan
  intro project request markers
  have left : LeftBy config cache tree
      (Project.findUnused cache tree project request false).cache := by
    rw [findUnused_cache]
    exact leftBy_index project markers
  by_cases report : arguments.isTrue "write_report" = true
  · rw [if_pos report]
    dsimp only
    rw [run_cache]
    exact left
  · rw [if_neg report]
    dsimp only
    exact left

theorem leftBy_getComponent (arguments : Arguments) :
    LeftBy config cache tree (getComponent config cache tree arguments).cache := by
  rw [getComponent]
  by_cases unnamed : arguments.text "name" "" = ""
  · rw [if_pos unnamed]
    exact Or.inl rfl
  · rw [if_neg unnamed, follow_cache]
    exact leftBy_indexOf arguments

/-- One call leaves the cache as it was or as one scan leaves it. -/
theorem leftBy_answer (tool : Tool) (arguments : Arguments) :
    LeftBy config cache tree (answer config cache tree tool arguments).cache := by
  cases tool with
  | findUnused => exact leftBy_findUnused arguments
  | getComponent => exact leftBy_getComponent arguments
  | listImports =>
    rw [answer, follow_cache]
    exact leftBy_indexOf arguments
  | listExports =>
    rw [answer, follow_cache]
    exact leftBy_indexOf arguments
  | listComponents =>
    rw [answer, follow_cache]
    exact leftBy_indexOf arguments

end Called

section Answered

variable {config : Config} {tree : FileTree} {trees : List FileTree} {cache : Option Cache.Result}

theorem indexWith_of_sincere
    {options : Project.Options} (sincere : Scan.Sincere (markersOf config) trees cache)
    (determined : Determined (tree :: trees)) (named : options.parseMode.Named)
    (markers : options.markers = markersOf config) (project : String) :
    (Scan.Verdict.of 0 (Project.indexWith cache tree project options false).result).EndsLike
      (Project.indexWith none tree project options false).result ∧
    Scan.Sincere (markersOf config) (tree :: trees)
      (Project.indexWith cache tree project options false).cache := by
  have settings : options.extraction = .ofMode (markersOf config) options.parseMode := by
    rw [Project.Options.extraction, markers]
    rfl
  rw [Project.indexWith, Project.indexWith, settings]
  exact Scan.build_of_sincere sincere determined named

/-- Whatever a server has answered, what it has cached was read from one of the trees. -/
theorem Served.sincere
    (served : Served config trees cache) (determined : Determined trees) :
    Scan.Sincere (markersOf config) trees cache := by
  induction served with
  | uncached =>
    intro held same
    cases same
  | cached new =>
    intro held same entry member
    unfold Cache.Result.new at new
    split at new
    · cases new
    · cases new
      cases same
      cases member
  | @called trees cache earlier tree tool arguments inductionHypothesis =>
    have before := inductionHypothesis determined.tail
    rcases @leftBy_answer config cache tree tool arguments with
      unchanged | ⟨project, options, named, markers, left⟩
    · rw [unchanged]
      exact before.cons tree
    · rw [left]
      exact (indexWith_of_sincere before determined named markers project).2

/-! ## Servers that are ready -/

/-- A server is ready for calls about a tree if size and time tell the contents apart in it and in
all trees that it answered calls about. -/
def Ready (config : Config) (tree : FileTree) (cache : Option Cache.Result) : Prop :=
  ∃ trees, Served config trees cache ∧ Determined (tree :: trees)

theorem determined_singleton (tree : FileTree) : Determined [tree] := by
  intro first firstMember second secondMember path node other _ _ _ _
  rw [List.mem_singleton.mp firstMember, List.mem_singleton.mp secondMember]

theorem determined_again
    (determined : Determined (tree :: trees)) : Determined (tree :: tree :: trees) := by
  intro first firstMember second secondMember
  refine determined first ?_ second ?_
  · simpa using firstMember
  · simpa using secondMember

theorem ready_uncached (config : Config) (tree : FileTree) : Ready config tree none :=
  ⟨[], .uncached, determined_singleton tree⟩

theorem ready_cached
    {capacity : Int} {cache : Cache.Result} (new : Cache.Result.new capacity = .ok cache)
    (config : Config) (tree : FileTree) : Ready config tree (some cache) :=
  ⟨[], .cached new, determined_singleton tree⟩

/-- A server is ready for the next call about a tree that has not changed. -/
theorem Ready.answered
    (ready : Ready config tree cache) (tool : Tool) (arguments : Arguments) :
    Ready config tree (answer config cache tree tool arguments).cache := by
  obtain ⟨trees, served, determined⟩ := ready
  exact ⟨tree :: trees, .called served tree tool arguments, determined_again determined⟩

theorem Ready.endsLike
    (ready : Ready config tree cache) {options : Project.Options}
    (resolved : config.request.resolve = .ok options) (project : String) :
    (Scan.Verdict.of 0 (Project.indexWith cache tree project options false).result).EndsLike
      (Project.indexWith none tree project options false).result := by
  obtain ⟨trees, served, determined⟩ := ready
  have named := Project.Request.resolve_named resolved
  have markers : options.markers = markersOf config := resolve_markers resolved
  exact (indexWith_of_sincere (served.sincere determined.tail) determined named markers project).1

end Answered

end ToolServer

end ImportAudit
