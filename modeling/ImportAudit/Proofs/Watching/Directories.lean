import ImportAudit.Proofs.Discovery.Membership
import ImportAudit.Proofs.Path.Relative
import ImportAudit.Proofs.Watching.Removal

/-!
# Directories that went away

A directory below the watched root that was removed or renamed is known by its path alone: nothing
is left to look at. It is taken for a directory if the path has no extension, so that the event for
it is heeded if its name has no dot, or if the path ends like that of a source file. Then the
project is scanned again once things are quiet. A directory of any other name goes away unheeded,
with all the sources that it held.
-/

namespace ImportAudit

/-- A directory below a root, by the names that lead to it, in which discovery finds a file. -/
structure HoldsSource (tree : FileTree) (root : String) (options : Discovery.Options)
    (names : List String) : Prop where
  directory : ∃ top entries, tree.linkStat root = .ok top ∧
    FileTree.nodeAt? top names = some (.directory entries)
  source : ∃ found more, Discovery.files tree root options = .ok found ∧ more ≠ [] ∧
    String.intercalate "/" (names ++ more) ∈ found

namespace Watcher

/-! ## Paths that are gathered -/

def Gathers (watcher : Watcher) (path : String) : Prop :=
  path ∈ watcher.pending.map Prod.fst

theorem gathers_queue (watcher : Watcher) (path : String) (changes : Changes) (other : String) :
    (watcher.queue path changes).Gathers other ↔
      other = watcher.relative path ∨ watcher.Gathers other :=
  mem_paths_insertChange (watcher.relative path) other changes watcher.pending

/-! ## Events for a directory -/

/-- The path that an event gives for what is below the root. -/
def eventPath (watcher : Watcher) (names : List String) : String :=
  Path.join [watcher.root, Path.below names]

section Below

variable {front : List String} {name : String} (frontNames : ∀ part ∈ front, Path.IsName part)
  (isName : Path.IsName name)
include frontNames isName

theorem relative_eventPath (watcher : Watcher) :
    watcher.relative (watcher.eventPath (front ++ [name])) =
      String.intercalate "/" (front ++ [name]) := by
  have areNames : ∀ part ∈ front ++ [name], Path.IsName part :=
    List.forall_mem_append.mpr ⟨frontNames, List.forall_mem_singleton.mpr isName⟩
  have some : front ++ [name] ≠ [] := List.append_ne_nil_of_right_ne_nil _ (List.cons_ne_nil _ _)
  rw [eventPath]
  by_cases unrooted : watcher.root = ""
  · have nothing : Path.toClean "" = ⟨false, []⟩ := rfl
    rw [relative, if_pos unrooted, unrooted, Path.join_below areNames, nothing, List.nil_append]
    exact Path.below_of_ne_nil some areNames
  · rw [relative, if_neg unrooted, Path.relative?_join_below areNames watcher.root some,
      Option.getD_some]

theorem ignores_eventPath (watcher : Watcher) :
    watcher.ignores (watcher.eventPath (front ++ [name])) = false ↔
      ∀ pattern ∈ watcher.options.ignore,
        Glob.matchesPath pattern (String.intercalate "/" (front ++ [name])) = false ∧
          Glob.matchesPath pattern name = false := by
  have base : Path.base (watcher.eventPath (front ++ [name])) = name :=
    Path.base_join_below frontNames isName watcher.root
  simp only [ignores, relative_eventPath frontNames isName watcher, base, List.any_eq_false,
    Bool.not_eq_true, Bool.or_eq_false_iff]

/-- Whether the event for a directory that is gone is heeded depends on what its path looks like. -/
theorem heeds_eventPath
    {watcher : Watcher} {later : FileTree} {changes : Changes}
    (unignored : watcher.ignores (watcher.eventPath (front ++ [name])) = false)
    (away : changes.takesAway = true)
    (gone : later.isDirectory (watcher.eventPath (front ++ [name])) = false) :
    watcher.heeds ⟨later, watcher.eventPath (front ++ [name]), changes⟩ = true ↔
      '.' ∉ name.toList ∨ Discovery.hasExtension watcher.options.extensions
        (watcher.eventPath (front ++ [name])) = true := by
  have plain : Path.extension (watcher.eventPath (front ++ [name])) = "" ↔ '.' ∉ name.toList :=
    Path.extension_join_below frontNames isName watcher.root
  by_cases source : Discovery.hasExtension watcher.options.extensions
      (watcher.eventPath (front ++ [name])) = true
  · exact iff_of_true (heeds_of_source unignored source away) (Or.inr source)
  · simp only [heeds, concerns, unignored, gone, source, away, plain, Bool.and_false,
      Bool.false_eq_true, if_false, Bool.not_false, Bool.true_and, decide_eq_true_eq, or_false]

end Below

end Watcher

namespace Watching

open Watcher

/-! ## From events to scans -/

/-- The watching after some events that come while the tree stays as it is. -/
def noticeAll (watching : Watching) (tree : FileTree) (events : List Change) : Watching :=
  events.foldl (fun watching event => watching.notice tree event) watching

/-- The project is scanned again after some events, in view of a batch that names the path. -/
def Rescans (watching : Watching) (tree : FileTree) (events : List Change) (path : String) : Prop :=
  ∃ (waiting : Watching) (batch : List Change),
    waiting.project = watching.project ∧ waiting.settings = watching.settings ∧
      waiting.cache = watching.cache ∧ path ∈ batch.map Prod.fst ∧
      watching.receive tree events =
        ((waiting.rescan tree batch false).1, some (waiting.rescan tree batch false).2)

/-- What stays as it is while events come: all but the directories from which they come and what is
gathered, and what was gathered for is not lost. -/
structure Keeps (watching later : Watching) : Prop where
  project : later.project = watching.project
  settings : later.settings = watching.settings
  cache : later.cache = watching.cache
  options : later.watcher.options = watching.watcher.options
  root : later.watcher.root = watching.watcher.root
  stopped : later.watcher.stopped = watching.watcher.stopped
  gathers : ∀ path, watching.watcher.Gathers path → later.watcher.Gathers path

variable {watching later : Watching} {tree : FileTree} {path : String} {changes : Changes}

theorem Keeps.refl (watching : Watching) : watching.Keeps watching :=
  ⟨rfl, rfl, rfl, rfl, rfl, rfl, fun _ gathered => gathered⟩

theorem Keeps.trans
    {latest : Watching} (first : watching.Keeps later) (next : later.Keeps latest) :
    watching.Keeps latest where
  project := next.project.trans first.project
  settings := next.settings.trans first.settings
  cache := next.cache.trans first.cache
  options := next.options.trans first.options
  root := next.root.trans first.root
  stopped := next.stopped.trans first.stopped
  gathers := fun path gathered => next.gathers path (first.gathers path gathered)

theorem Keeps.relative_eq (keeps : watching.Keeps later) (path : String) :
    later.watcher.relative path = watching.watcher.relative path := by
  rw [relative, relative, keeps.root]

theorem Keeps.heeds_eq (keeps : watching.Keeps later) (event : Event) :
    later.watcher.heeds event = watching.watcher.heeds event := by
  simp only [heeds, ignores, concerns, keeps.relative_eq, keeps.options]

theorem notice_of_heeds
    (seen : watching.sees path = true)
    (heeded : watching.watcher.heeds ⟨tree, path, changes⟩ = true) :
    watching.notice tree (path, changes) =
      { watching with
        watcher := watching.watcher.queue path changes
        directories := watching.directoriesAfter tree path changes } := by
  rw [notice, if_pos seen, handle_of_heeds heeded]

/-- Noticing an event keeps the settings, and what was gathered for stays gathered for. -/
theorem notice_keeps (watching : Watching) (tree : FileTree) (event : Change) :
    watching.Keeps (watching.notice tree event) := by
  obtain ⟨path, changes⟩ := event
  by_cases seen : watching.sees path = true
  · by_cases heeded : watching.watcher.heeds ⟨tree, path, changes⟩ = true
    · rw [notice_of_heeds seen heeded]
      exact ⟨rfl, rfl, rfl, rfl, rfl, rfl, fun other gathered =>
        (gathers_queue watching.watcher path changes other).mpr (Or.inr gathered)⟩
    · rw [notice, if_pos seen, handle_of_not_heeds heeded]
      exact ⟨rfl, rfl, rfl, rfl, rfl, rfl, fun _ gathered => gathered⟩
  · rw [notice, if_neg seen]
    exact Keeps.refl watching

theorem noticeAll_keeps (watching : Watching) (tree : FileTree) (events : List Change) :
    watching.Keeps (watching.noticeAll tree events) := by
  induction events generalizing watching with
  | nil => exact Keeps.refl watching
  | cons event rest inductionHypothesis =>
    exact (watching.notice_keeps tree event).trans
      (inductionHypothesis (watching.notice tree event))

theorem noticeAll_append
    (watching : Watching) (tree : FileTree) (before after : List Change) :
    watching.noticeAll tree (before ++ after) =
      (watching.noticeAll tree before).noticeAll tree after :=
  List.foldl_append

theorem receive_of_flush
    {events batch : List Change}
    (handed : (watching.noticeAll tree events).watcher.flush.1 = some batch) :
    ∃ flushed, watching.receive tree events =
      (({ watching.noticeAll tree events with watcher := flushed }.rescan tree batch false).1,
        some ({ watching.noticeAll tree events with watcher := flushed }.rescan tree batch
          false).2) := by
  refine ⟨(watching.noticeAll tree events).watcher.flush.2, ?_⟩
  simp only [noticeAll] at handed ⊢
  simp only [receive, handed]

/-- Whatever is gathered when the delay runs out makes a running watcher scan again. -/
theorem rescans_of_gathers
    {events : List Change} (running : watching.watcher.stopped = false)
    (gathered : (watching.noticeAll tree events).watcher.Gathers path) :
    watching.Rescans tree events path := by
  have keeps := watching.noticeAll_keeps tree events
  have nonempty : (watching.noticeAll tree events).watcher.pending ≠ [] := by
    intro empty
    rw [Gathers, empty] at gathered
    cases gathered
  obtain ⟨flushed, received⟩ :=
    receive_of_flush (flush_of_pending (keeps.stopped.trans running) nonempty)
  exact ⟨{ watching.noticeAll tree events with watcher := flushed }, _, keeps.project,
    keeps.settings, keeps.cache, gathered, received⟩

/-- One heeded event of a quiet period is enough for a scan, whatever comes before and after. -/
theorem rescans_of_heeds
    (running : watching.watcher.stopped = false)
    (heeded : watching.watcher.heeds ⟨tree, path, changes⟩ = true) (before after : List Change)
    (seen : (watching.noticeAll tree before).sees path = true) :
    watching.Rescans tree (before ++ (path, changes) :: after)
      (watching.watcher.relative path) := by
  apply rescans_of_gathers running
  -- What is noticed before changes nothing about heeding, and what is noticed after takes nothing
  -- out again.
  have keeps := watching.noticeAll_keeps tree before
  have heededThen : (watching.noticeAll tree before).watcher.heeds ⟨tree, path, changes⟩ = true :=
    (keeps.heeds_eq _).trans heeded
  have noticed := notice_of_heeds seen heededThen
  have gathered : ((watching.noticeAll tree before).notice tree (path, changes)).watcher.Gathers
      (watching.watcher.relative path) := by
    rw [noticed]
    exact (gathers_queue _ path changes _).mpr (Or.inl (keeps.relative_eq path).symm)
  rw [noticeAll_append]
  exact (noticeAll_keeps _ tree after).gathers _ gathered

/-- A directory below the root that is not ignored, and in which discovery finds a file, is removed
or renamed. If there is no dot in its name, or if its path ends with one of the extensions, then
the event is gathered, and the project is scanned again when things are quiet: the batch names the
directory whatever other events come before and after. Otherwise nothing changes. -/
theorem rescans_removedDirectory
    {tree later : FileTree} {options : Discovery.Options} (watching : Watching)
    (front : List String) (name : String) (changes : Changes) (wellNamed : tree.top.WellNamed)
    (holds : HoldsSource tree watching.watcher.root options (front ++ [name]))
    (unignored : ∀ pattern ∈ watching.watcher.options.ignore,
      Glob.matchesPath pattern (String.intercalate "/" (front ++ [name])) = false ∧
        Glob.matchesPath pattern name = false)
    (away : changes.takesAway = true)
    (gone : later.isDirectory (watching.watcher.eventPath (front ++ [name])) = false) :
    ('.' ∉ name.toList ∨ Discovery.hasExtension watching.watcher.options.extensions
        (watching.watcher.eventPath (front ++ [name])) = true →
      watching.watcher.handle later (watching.watcher.eventPath (front ++ [name])) changes =
          watching.watcher.queue (watching.watcher.eventPath (front ++ [name])) changes ∧
        ∀ before after : List Change, watching.watcher.stopped = false →
          (watching.noticeAll later before).sees
            (watching.watcher.eventPath (front ++ [name])) = true →
          watching.Rescans later
            (before ++ (watching.watcher.eventPath (front ++ [name]), changes) :: after)
            (String.intercalate "/" (front ++ [name]))) ∧
    ('.' ∈ name.toList → Discovery.hasExtension watching.watcher.options.extensions
        (watching.watcher.eventPath (front ++ [name])) = false →
      watching.watcher.handle later (watching.watcher.eventPath (front ++ [name])) changes =
        watching.watcher) := by
  -- The directory itself is gone, but the names that led to it were names of entries.
  obtain ⟨top, entries, looked, isDirectory⟩ := holds.directory
  have topNamed : top.WellNamed := FileTree.wellNamed_of_linkStat wellNamed looked
  have areNames : ∀ part ∈ front ++ [name], Path.IsName part := fun part member =>
    (FileTree.entryName_of_nodeAt? topNamed isDirectory part member).toIsName
  obtain ⟨frontNames, lastName⟩ := List.forall_mem_append.mp areNames
  have isName : Path.IsName name := List.forall_mem_singleton.mp lastName
  have heeds := heeds_eventPath frontNames isName
    ((ignores_eventPath frontNames isName watching.watcher).mpr unignored) away gone
  refine ⟨fun known => ?_, fun dotted unended => ?_⟩
  · have heeded := heeds.mpr known
    have queued := handle_of_heeds heeded
    refine ⟨queued, fun before after running seen => ?_⟩
    have rescans := rescans_of_heeds running heeded before after seen
    rwa [relative_eventPath frontNames isName watching.watcher] at rescans
  · have unheeded : watching.watcher.heeds
        ⟨later, watching.watcher.eventPath (front ++ [name]), changes⟩ ≠ true := by
      intro heeded
      rcases heeds.mp heeded with plain | ended
      · exact plain dotted
      · rw [unended] at ended
        cases ended
    have unchanged := handle_of_not_heeds unheeded
    exact unchanged

/-- Two directories with a source in each, one of them named after a version. -/
def versionedTree : FileTree :=
  (FileTree.empty.put ["p", "src", "lib", "A.tsx"] (.file .empty 0)).put
    ["p", "src", "v1.0", "B.tsx"] (.file .empty 0)

def versionedEntries : List (String × Node) :=
  [("lib", .directory [("A.tsx", .file .empty 0)]),
    ("v1.0", .directory [("B.tsx", .file .empty 0)])]

def renamed : Changes :=
  { Changes.none with rename := true }

theorem wellNamed_versionedTree : versionedTree.top.WellNamed := by
  decide

theorem linkStat_versionedTree :
    versionedTree.linkStat "p/src" = .ok (.directory versionedEntries) := by
  have names : Path.below ["p", "src"] = "p/src" := by decide
  rw [← names]
  exact FileTree.linkStat_of_nodeAt? (by decide) (by decide) rfl

theorem files_versionedTree :
    Discovery.files versionedTree "p/src" ⟨Discovery.sourceExtensions, []⟩ =
      .ok ["lib/A.tsx", "v1.0/B.tsx"] := by
  rw [Discovery.files_of_directory (List.forall_mem_nil _) linkStat_versionedTree]
  rfl

theorem holdsSource_lib :
    HoldsSource versionedTree "p/src" ⟨Discovery.sourceExtensions, []⟩ ["lib"] where
  directory := ⟨_, _, linkStat_versionedTree, rfl⟩
  source := ⟨_, ["A.tsx"], files_versionedTree, List.cons_ne_nil _ _, by decide⟩

theorem holdsSource_version :
    HoldsSource versionedTree "p/src" ⟨Discovery.sourceExtensions, []⟩ ["v1.0"] where
  directory := ⟨_, _, linkStat_versionedTree, rfl⟩
  source := ⟨_, ["B.tsx"], files_versionedTree, List.cons_ne_nil _ _, by decide⟩

/-- The directory with the plain name was moved away, and the other one is left. -/
def withoutLib : FileTree :=
  versionedTree.erase ["p", "src", "lib"]

def withoutVersion : FileTree :=
  versionedTree.erase ["p", "src", "v1.0"]

theorem gone_lib : withoutLib.isDirectory "p/src/lib" = false := by
  have names : Path.below (["p", "src"] ++ ["lib"]) = "p/src/lib" := by decide
  have parent : FileTree.nodeAt? withoutLib.top ["p", "src"] =
      some (.directory [("v1.0", .directory [("B.tsx", .file .empty 0)])]) := rfl
  exact names ▸ FileTree.isDirectory_of_absent (by decide) (by decide) parent rfl

theorem gone_version : withoutVersion.isDirectory "p/src/v1.0" = false := by
  have names : Path.below (["p", "src"] ++ ["v1.0"]) = "p/src/v1.0" := by decide
  have parent : FileTree.nodeAt? withoutVersion.top ["p", "src"] =
      some (.directory [("lib", .directory [("A.tsx", .file .empty 0)])]) := rfl
  exact names ▸ FileTree.isDirectory_of_absent (by decide) (by decide) parent rfl

/-- The directory with the plain name is moved away while an editor changes its own files, and the
other directory is moved away alone. -/
theorem rescans_removedDirectory_versionedTree :
    HoldsSource versionedTree "p/src" ⟨Discovery.sourceExtensions, []⟩ ["lib"] ∧
      withoutLib.isDirectory "p/src/lib" = false ∧
      watchedProject.Rescans withoutLib
        [("p/src/a.swp", Changes.none), ("p/src/lib", renamed), ("p/src/b.swp", Changes.none)]
        "lib" ∧
      watchedProject.watcher.handle withoutVersion "p/src/v1.0" renamed =
        watchedProject.watcher := by
  have unignored : ∀ name ∈ ["lib", "v1.0"], ∀ pattern ∈ watchedProject.watcher.options.ignore,
      Glob.matchesPath pattern (String.intercalate "/" ([] ++ [name])) = false ∧
        Glob.matchesPath pattern name = false := by
    decide
  obtain ⟨scanned, _⟩ := rescans_removedDirectory watchedProject [] "lib" renamed
    wellNamed_versionedTree holdsSource_lib (unignored "lib" (by decide)) rfl gone_lib
  obtain ⟨_, unnoticed⟩ := rescans_removedDirectory watchedProject [] "v1.0" renamed
    wellNamed_versionedTree holdsSource_version (unignored "v1.0" (by decide)) rfl gone_version
  have rescans := (scanned (Or.inl (by decide))).2 [("p/src/a.swp", Changes.none)]
    [("p/src/b.swp", Changes.none)] rfl rfl
  exact ⟨holdsSource_lib, gone_lib, rescans, unnoticed (by decide) (by decide)⟩

/-- The directory named after a version is moved away in the same way, and nobody notices. -/
theorem missed_removedDirectory :
    versionedTree.top.WellNamed ∧
      HoldsSource versionedTree watchedProject.watcher.root ⟨Discovery.sourceExtensions, []⟩
        ["v1.0"] ∧
      (∀ pattern ∈ watchedProject.watcher.options.ignore,
        Glob.matchesPath pattern "v1.0" = false) ∧
      watchedProject.watcher.eventPath ["v1.0"] = "p/src/v1.0" ∧ renamed.takesAway = true ∧
      withoutVersion.isDirectory "p/src/v1.0" = false ∧ watchedProject.watcher.stopped = false ∧
      watchedProject.sees "p/src/v1.0" = true ∧
      watchedProject.watcher.handle withoutVersion "p/src/v1.0" renamed ≠
        watchedProject.watcher.queue "p/src/v1.0" renamed ∧
      ¬ watchedProject.Rescans withoutVersion [("p/src/v1.0", renamed)] "v1.0" := by
  have unheeded : watchedProject.watcher.heeds ⟨withoutVersion, "p/src/v1.0", renamed⟩ ≠ true := by
    decide
  have unchanged := handle_of_not_heeds unheeded
  simp only at unchanged
  have noScan : (watchedProject.receive withoutVersion [("p/src/v1.0", renamed)]).2.isNone =
      true := by
    decide
  refine ⟨wellNamed_versionedTree, holdsSource_version, by decide, by decide, rfl, gone_version,
    rfl, rfl, ?_, ?_⟩
  · rw [unchanged]
    decide
  · rintro ⟨waiting, batch, _, _, _, _, scanned⟩
    rw [scanned] at noScan
    cases noScan

end Watching

end ImportAudit
