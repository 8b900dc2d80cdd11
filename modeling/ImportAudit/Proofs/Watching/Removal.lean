import ImportAudit.Proofs.Cache.Recency
import ImportAudit.Proofs.Watching.Pending
import ImportAudit.Watching

/-!
# Files that went away

What the cache forgets before a project is scanned again. In the batch of one quiet period every
path stands with the last change that was heeded for it, and what goes by that change to have been
removed or renamed is forgotten, whatever settings it was scanned with. A removal after which
something else was heeded for the path is not in the batch, and the results of the path are kept.
-/

namespace ImportAudit

namespace Watcher

/-- A change as it comes from the file system, with the files as they are when it is handled. -/
structure Event where
  tree : FileTree
  path : String
  changes : Changes

def heeds (watcher : Watcher) (event : Event) : Bool :=
  !watcher.ignores event.path && watcher.concerns event.tree event.path event.changes

def hear (watcher : Watcher) : List Event → Watcher
  | [] => watcher
  | event :: later => (watcher.handle event.tree event.path event.changes).hear later

/-- The changes of the last event for a path that is heeded. -/
def lastFor? (watcher : Watcher) (path : String) : List Event → Option Changes
  | [] => none
  | event :: later =>
    (watcher.lastFor? path later).or
      (if watcher.heeds event ∧ watcher.relative event.path = path then some event.changes
      else none)

variable {watcher : Watcher} {path : String} {changes : Changes}

theorem handle_of_heeds
    {event : Event} (heeded : watcher.heeds event = true) :
    watcher.handle event.tree event.path event.changes =
      watcher.queue event.path event.changes := by
  simp only [heeds, Bool.and_eq_true, Bool.not_eq_true'] at heeded
  rw [handle, if_neg (by simp [heeded.1]), if_pos heeded.2]

theorem handle_of_not_heeds
    {event : Event} (unheeded : watcher.heeds event ≠ true) :
    watcher.handle event.tree event.path event.changes = watcher := by
  rw [handle]
  by_cases ignored : watcher.ignores event.path = true
  · rw [if_pos ignored]
  · rw [if_neg ignored, if_neg]
    intro concerned
    apply unheeded
    simp only [heeds, concerned, Bool.and_true, Bool.not_eq_true', Bool.eq_false_iff]
    exact ignored

/-- A source file that went away is heeded unless it is ignored. -/
theorem heeds_of_source
    {event : Event} (unignored : watcher.ignores event.path = false)
    (source : Discovery.hasExtension watcher.options.extensions event.path = true)
    (away : event.changes.takesAway = true) : watcher.heeds event = true := by
  have notOnlyChmod : event.changes ≠ Changes.onlyChmod := by
    intro same
    rw [same] at away
    cases away
  simp only [heeds, unignored, Bool.not_false, Bool.true_and, concerns, source, if_true,
    notOnlyChmod, ne_eq, not_false_eq_true, decide_true, ite_self]

/-- Hearing touches nothing but what is gathered and whether the delay is running. -/
theorem hear_frame (watcher : Watcher) (events : List Event) :
    ∃ pending armed, watcher.hear events = { watcher with pending, armed } := by
  induction events generalizing watcher with
  | nil => exact ⟨_, _, rfl⟩
  | cons event later inductionHypothesis =>
    rw [hear]
    by_cases heeded : watcher.heeds event = true
    · rw [handle_of_heeds heeded]
      exact inductionHypothesis (watcher.queue event.path event.changes)
    · rw [handle_of_not_heeds heeded]
      exact inductionHypothesis watcher

theorem lastFor?_of_frame (watcher : Watcher) (pending : List Change) (armed : Bool)
    (path : String) (events : List Event) :
    { watcher with pending, armed }.lastFor? path events = watcher.lastFor? path events := by
  induction events with
  | nil => rfl
  | cons event later inductionHypothesis =>
    rw [lastFor?, lastFor?, inductionHypothesis]
    rfl

/-- What is gathered for a path is the last change that was heeded for it, or what was gathered
before. -/
theorem mem_hear (ordered : InOrder watcher.pending) (events : List Event) :
    (path, changes) ∈ (watcher.hear events).pending ↔
      watcher.lastFor? path events = some changes ∨
        watcher.lastFor? path events = none ∧ (path, changes) ∈ watcher.pending := by
  induction events generalizing watcher with
  | nil => simp [hear, lastFor?]
  | cons event later inductionHypothesis =>
    rw [hear, lastFor?]
    by_cases heeded : watcher.heeds event = true
    · have queued := ordered_insertChange ordered (watcher.relative event.path) event.changes
      have sameLast : (watcher.queue event.path event.changes).lastFor? path later =
          watcher.lastFor? path later :=
        lastFor?_of_frame watcher _ _ path later
      rw [handle_of_heeds heeded, inductionHypothesis queued, sameLast]
      cases watcher.lastFor? path later with
      | some last => simp
      | none =>
        simp only [queue, mem_insertChange ordered, heeded, true_and, Option.none_or, reduceCtorEq,
          false_or]
        by_cases same : watcher.relative event.path = path
        · subst same
          simp [eq_comm]
        · simp [same, Ne.symm same]
    · rw [handle_of_not_heeds heeded, inductionHypothesis ordered]
      simp [heeded]

theorem lastFor?_append (before after : List Event) :
    watcher.lastFor? path (before ++ after) =
      (watcher.lastFor? path after).or (watcher.lastFor? path before) := by
  induction before with
  | nil => simp [lastFor?]
  | cons event before inductionHypothesis =>
    rw [List.cons_append, lastFor?, lastFor?, inductionHypothesis, Option.or_assoc]

/-- The last event for a path says that it went away if all of them do. -/
theorem takesAway_of_lastFor?
    {events : List Event} {last : Changes}
    (final : ∀ event ∈ events, watcher.heeds event = true → watcher.relative event.path = path →
      event.changes.takesAway = true)
    (isLast : watcher.lastFor? path events = some last) : last.takesAway = true := by
  induction events with
  | nil => cases isLast
  | cons event later inductionHypothesis =>
    rw [lastFor?, Option.or_eq_some_iff] at isLast
    rcases isLast with inLater | ⟨_, here⟩
    · exact inductionHypothesis (fun other member => final other (List.mem_cons_of_mem _ member))
        inLater
    · rw [Option.ite_none_right_eq_some, Option.some.injEq] at here
      obtain ⟨⟨heeded, samePath⟩, rfl⟩ := here
      exact final event List.mem_cons_self heeded samePath

/-- If a path went away and came back in no later event, then it went away last. -/
theorem lastFor?_of_away
    (before : List Event) {after : List Event} {event : Event}
    (heeded : watcher.heeds event = true) (away : event.changes.takesAway = true)
    (final : ∀ later ∈ after, watcher.heeds later = true →
      watcher.relative later.path = watcher.relative event.path →
        later.changes.takesAway = true) :
    ∃ last, watcher.lastFor? (watcher.relative event.path) (before ++ event :: after) = some last ∧
      last.takesAway = true := by
  rw [lastFor?_append, lastFor?]
  cases inAfter : watcher.lastFor? (watcher.relative event.path) after with
  | some last => exact ⟨last, rfl, takesAway_of_lastFor? final inAfter⟩
  | none => exact ⟨event.changes, by simp [heeded], away⟩

/-- What was heard is handed on unless the watcher was stopped or nothing was heeded. -/
theorem flush_hear
    (running : watcher.stopped = false) (events : List Event)
    (member : (path, changes) ∈ (watcher.hear events).pending) :
    (watcher.hear events).flush.1 = some (watcher.hear events).pending := by
  have stillRunning : (watcher.hear events).stopped = false := by
    obtain ⟨pending, armed, same⟩ := watcher.hear_frame events
    rw [same]
    exact running
  exact flush_of_pending stillRunning (List.ne_nil_of_mem member)

end Watcher

namespace Watching

open Watcher

/-- The cache loses the results of the paths that a batch says went away, and keeps all others. -/
theorem mem_forget (watching : Watching) (batch : List Change) (entry : Cache.Entry) :
    entry ∈ (watching.forget batch).entries ↔
      entry ∈ watching.cache.entries ∧
        ∀ path changes, (path, changes) ∈ batch → changes.takesAway = true →
          Cache.Result.pathOfKey entry.key ≠
            Path.join [Project.sourceFolder watching.project, path] := by
  induction batch generalizing watching with
  | nil => simp [forget]
  | cons change rest inductionHypothesis =>
    obtain ⟨path, changes⟩ := change
    have one : watching.forget ((path, changes) :: rest) =
        { watching with
          cache :=
            if changes.takesAway then
              (watching.cache.invalidate
                (Path.join [Project.sourceFolder watching.project, path])).2
            else watching.cache }.forget rest := rfl
    rw [one, inductionHypothesis]
    by_cases away : changes.takesAway = true
    · simp only [away, if_true, Cache.Result.invalidate, List.mem_filter, bne_iff_ne, ne_eq,
        List.mem_cons, Prod.mk.injEq]
      grind
    · simp only [away, List.mem_cons, Prod.mk.injEq]
      grind

/-- In one quiet period a source file that is not ignored goes away, and no event for it that is
heeded afterwards says otherwise. Then the batch is handed on, and the cache with which the project
is scanned again holds nothing for the file under any fingerprint. It has lost the results of
those paths whose last heeded event says that they went away, and no others. -/
theorem forget_wentAway
    (watching : Watching) (before after : List Event) (event : Event)
    (quiet : watching.watcher.pending = []) (running : watching.watcher.stopped = false)
    (unignored : watching.watcher.ignores event.path = false)
    (source : Discovery.hasExtension watching.watcher.options.extensions event.path = true)
    (away : event.changes.takesAway = true)
    (final : ∀ later ∈ after, watching.watcher.heeds later = true →
      watching.watcher.relative later.path = watching.watcher.relative event.path →
        later.changes.takesAway = true) :
    ∃ batch, (watching.watcher.hear (before ++ event :: after)).flush.1 = some batch ∧
      (∀ fingerprint, '\x00' ∉ fingerprint.toList →
        (watching.forget batch).find?
          (Cache.Result.key fingerprint
            (Path.join [Project.sourceFolder watching.project,
              watching.watcher.relative event.path])) = none) ∧
      ∀ entry, entry ∈ (watching.forget batch).entries ↔
        entry ∈ watching.cache.entries ∧
          ∀ path changes,
            watching.watcher.lastFor? path (before ++ event :: after) = some changes →
              changes.takesAway = true →
                Cache.Result.pathOfKey entry.key ≠
                  Path.join [Project.sourceFolder watching.project, path] := by
  have ordered : InOrder watching.watcher.pending := by
    rw [quiet]
    exact List.Pairwise.nil
  have gathered : ∀ path changes,
      (path, changes) ∈ (watching.watcher.hear (before ++ event :: after)).pending ↔
        watching.watcher.lastFor? path (before ++ event :: after) = some changes := by
    intro path changes
    rw [mem_hear ordered, quiet]
    simp
  obtain ⟨last, isLast, lastAway⟩ :=
    lastFor?_of_away before (heeds_of_source unignored source away) away final
  have inBatch := (gathered _ _).mpr isLast
  refine ⟨_, flush_hear running _ inBatch, fun fingerprint free => ?_, fun entry => ?_⟩
  · refine Option.not_isSome_iff_eq_none.mp fun held => ?_
    obtain ⟨entry, member, named⟩ := Cache.Result.find?_isSome_iff.mp held
    have kept := ((mem_forget _ _ _).mp member).2 _ _ inBatch lastAway
    rw [named, Cache.Result.pathOfKey_key free] at kept
    exact kept rfl
  · rw [mem_forget]
    simp only [gathered]

/-- A project that is being watched, with the result of one file in its cache. -/
def watchedProject : Watching :=
  { project := "p"
    settings := .default
    cache := Cache.Result.default.put "f" "p/src/a.ts" 1 1 ⟨"a.ts", ⟨"a.ts", []⟩, []⟩
    watcher := ⟨.default, "p/src", true, false, [], false⟩
    directories := ["p/src"] }

def removalAt (path : String) : Event :=
  ⟨.empty, path, { Changes.none with remove := true }⟩

def creationAt (path : String) : Event :=
  ⟨.empty, path, { Changes.none with create := true }⟩

/-- The file is made and removed, and then another one is made. -/
theorem forget_wentAway_removed :
    (watchedProject.cache.find? (Cache.Result.key "f" "p/src/a.ts")).isSome = true ∧
      ∃ batch, (watchedProject.watcher.hear
          [creationAt "p/src/a.ts", removalAt "p/src/a.ts", creationAt "p/src/b.ts"]).flush.1 =
            some batch ∧
        (watchedProject.forget batch).find? (Cache.Result.key "f" "p/src/a.ts") = none := by
  have otherFile : watchedProject.watcher.relative "p/src/b.ts" ≠
      watchedProject.watcher.relative "p/src/a.ts" := by decide
  obtain ⟨batch, handed, forgotten, _⟩ :=
    forget_wentAway watchedProject [creationAt "p/src/a.ts"] [creationAt "p/src/b.ts"]
      (removalAt "p/src/a.ts") rfl rfl rfl (by decide) rfl (by
        intro later member _ samePath
        rw [List.mem_singleton] at member
        subst member
        exact absurd samePath otherFile)
  exact ⟨by decide, batch, handed, forgotten "f" (by decide)⟩

/-- The file is removed and made again: only that it was made is handed on, and its old result is
still in the cache when the project is scanned. -/
theorem kept_of_madeAgain :
    watchedProject.watcher.pending = [] ∧ watchedProject.watcher.stopped = false ∧
      watchedProject.watcher.ignores (removalAt "p/src/a.ts").path = false ∧
      Discovery.hasExtension watchedProject.watcher.options.extensions
        (removalAt "p/src/a.ts").path = true ∧
      (removalAt "p/src/a.ts").changes.takesAway = true ∧
      (watchedProject.watcher.hear
        [removalAt "p/src/a.ts", creationAt "p/src/a.ts"]).flush.1 =
          some [("a.ts", { Changes.none with create := true })] ∧
      '\x00' ∉ "f".toList ∧
      ((watchedProject.forget [("a.ts", { Changes.none with create := true })]).find?
        (Cache.Result.key "f" (Path.join [Project.sourceFolder watchedProject.project,
          watchedProject.watcher.relative (removalAt "p/src/a.ts").path]))).isSome = true := by
  have goneHeeded : watchedProject.watcher.heeds (removalAt "p/src/a.ts") = true :=
    heeds_of_source rfl (by decide) rfl
  -- It does not matter whether a directory of this name was made.
  have madeHeeded : (watchedProject.watcher.queue (removalAt "p/src/a.ts").path
      (removalAt "p/src/a.ts").changes).heeds (creationAt "p/src/a.ts") = true := by
    have unignored : watchedProject.watcher.ignores "p/src/a.ts" = false := rfl
    have concerned : watchedProject.watcher.concerns .empty "p/src/a.ts"
        (creationAt "p/src/a.ts").changes = true := by
      rw [concerns]
      by_cases directory : ((creationAt "p/src/a.ts").changes.create &&
          FileTree.empty.isDirectory "p/src/a.ts") = true
      · rw [if_pos directory]
      · rw [if_neg directory, if_pos (by decide)]
        decide
    have both := And.intro unignored concerned
    rw [heeds, Bool.and_eq_true, Bool.not_eq_true']
    exact both
  refine ⟨rfl, rfl, rfl, by decide, rfl, ?_, by decide, by decide⟩
  rw [hear, handle_of_heeds goneHeeded, hear, handle_of_heeds madeHeeded, hear]
  decide

end Watching

end ImportAudit
