import ImportAudit.Proofs.Cache.Operations
import ImportAudit.Proofs.Discovery
import ImportAudit.Proofs.IndexAgreement
import ImportAudit.Proofs.Scan.Jobs

/-!
# Truthful result caches

A result cache is truthful about the trees that were scanned so far if each of its entries was
read from one of them, under the size and the time that the file had there. Looking up and
putting keep it so, whatever is evicted. Where size and time determine what reading a path brings,
a job that is served by a truthful cache brings what reading its file would.
-/

namespace ImportAudit

/-! ## The file tree -/

theorem ok_of_toOption
    {ε α : Type} {outcome : Except ε α} {value : α} (present : outcome.toOption = some value) :
    outcome = .ok value := by
  cases outcome with
  | error fault => cases present
  | ok other =>
    cases present
    rfl

theorem FileTree.load_toOption (tree : FileTree) (path : String) :
    (Cache.Content.unbounded.load tree path).outcome.toOption = (tree.read path).toOption := by
  simp only [Cache.Content.load, Cache.Content.loadWhere, Cache.Content.unbounded,
    Cache.Content.new, FileTree.read]
  cases tree.openNode path with
  | error fault => rfl
  | ok node => cases node <;> rfl

/-- A path whose file cannot be looked at cannot be read. -/
theorem FileTree.read_of_stat_error
    {tree : FileTree} {path : String} {fault : Fault} (failed : tree.stat path = .error fault) :
    (tree.read path).toOption = none := by
  unfold FileTree.stat at failed
  unfold FileTree.read FileTree.openNode
  cases found : tree.find true path with
  | error reason => rfl
  | ok spot =>
    rw [found] at failed
    cases failed

/-- Throughout some trees, path, size and modification time determine what reading brings: a
content, or none. -/
def Determined (trees : List FileTree) : Prop :=
  ∀ first ∈ trees, ∀ second ∈ trees, ∀ (path : String) (node other : Node),
    first.stat path = .ok node → second.stat path = .ok other →
      node.size = other.size → node.modified = other.modified →
        (first.read path).toOption = (second.read path).toOption

theorem Determined.tail
    {tree : FileTree} {trees : List FileTree} (determined : Determined (tree :: trees)) :
    Determined trees :=
  fun first firstMember second secondMember =>
    determined first (List.mem_cons_of_mem tree firstMember) second
      (List.mem_cons_of_mem tree secondMember)

/-! ## Entries -/

namespace Cache.Result

theorem mem_of_mem_get
    {cache : Result} {fingerprint path : String} {size modified : Int} {entry : Entry}
    (member : entry ∈ (cache.get fingerprint path size modified).2.entries) :
    entry ∈ cache.entries := by
  rw [entries_get] at member
  cases found : cache.find? (key fingerprint path) with
  | none =>
    rw [found] at member
    exact member
  | some held =>
    rw [found] at member
    rcases List.mem_cons.mp member with rfl | other
    · exact List.mem_of_find?_eq_some found
    · exact (mem_others.mp other).1

/-- What is served is an entry of this key, with this size and this time. -/
theorem exists_entry_of_get
    {cache : Result} {fingerprint path : String} {size modified : Int} {result : Extraction}
    (served : (cache.get fingerprint path size modified).1 = some result) :
    ∃ entry ∈ cache.entries, entry.key = key fingerprint path ∧ entry.size = size ∧
      entry.modified = modified ∧ entry.result = result := by
  rcases cache.get_cases fingerprint path size modified with
    ⟨_, got⟩ | ⟨entry, found, ⟨sameSize, sameTime, got⟩ | ⟨_, got⟩⟩
  · rw [got] at served
    cases served
  · rw [got] at served
    exact ⟨entry, List.mem_of_find?_eq_some found, key_of_find? found, sameSize, sameTime,
      Option.some.inj served⟩
  · rw [got] at served
    cases served

theorem mem_of_mem_put
    {cache : Result} {fingerprint path : String} {size modified : Int} {result : Extraction}
    {entry : Entry} (member : entry ∈ (cache.put fingerprint path size modified result).entries) :
    entry = ⟨key fingerprint path, size, modified, result⟩ ∨ entry ∈ cache.entries := by
  have present := List.mem_of_mem_take member
  rcases List.mem_cons.mp present with new | other
  · exact Or.inl new
  · exact Or.inr (mem_others.mp other).1

/-- A result that was put is served to who comes with the same stamp. -/
theorem get_put
    {cache : Result} (room : 0 < cache.capacity) (fingerprint path : String)
    (size modified : Int) (result : Extraction) :
    ((cache.put fingerprint path size modified result).get fingerprint path size modified).1 =
      some result := by
  obtain ⟨places, capacity⟩ := Nat.exists_eq_add_one.mpr room
  simp [get, put, find?, capacity]

end Cache.Result

/-! ## Keys -/

/-- Settings that declare by the same markers and differ at most in how imports are recognised. -/
def Extraction.Settings.ofMode (markers : List Marker) (mode : ParseMode) : Settings :=
  ⟨mode, markers, [".ts"]⟩

def ParseMode.Named (mode : ParseMode) : Prop :=
  mode = .line ∨ mode = .statement

/-- Only modes that have a name are read from settings. -/
theorem ParseMode.named_of_parse
    {value : String} {mode : ParseMode} (parsed : ParseMode.parse value = .ok mode) :
    mode.Named := by
  unfold ParseMode.parse at parsed
  dsimp only at parsed
  split at parsed
  · cases parsed
    exact Or.inl rfl
  · split at parsed
    · cases parsed
      exact Or.inr rfl
    · cases parsed

/-- The labels of the two modes start differently, so neither can be taken for the other. -/
theorem ParseMode.label_append_inj
    {mode other : ParseMode} {rest otherRest : List Char} (named : mode.Named)
    (otherNamed : other.Named)
    (same : mode.label.toList ++ rest = other.label.toList ++ otherRest) :
    mode = other ∧ rest = otherRest := by
  rcases named with rfl | rfl <;> rcases otherNamed with rfl | rfl
  · exact ⟨rfl, List.append_cancel_left same⟩
  · simp [ParseMode.label] at same
  · simp [ParseMode.label] at same
  · exact ⟨rfl, List.append_cancel_left same⟩

open Extraction.Settings (ofMode)

/-- Keys tell the modes and the paths apart, whatever characters a path has. -/
theorem key_inj
    {markers : List Marker} {mode other : ParseMode} {path otherPath : String}
    (named : mode.Named) (otherNamed : other.Named)
    (same : Cache.Result.key (ofMode markers mode).fingerprint path =
      Cache.Result.key (ofMode markers other).fingerprint otherPath) :
    mode = other ∧ path = otherPath := by
  have sameLists := congrArg String.toList same
  simp only [Cache.Result.key, Extraction.Settings.fingerprint, ofMode, String.toList_append,
    List.append_assoc] at sameLists
  obtain ⟨sameMode, sameRest⟩ := ParseMode.label_append_inj named otherNamed sameLists
  refine ⟨sameMode, String.toList_inj.mp ?_⟩
  simpa using sameRest

/-- An entry that was read from one of the trees, under a name of its kind. -/
inductive Truthful (markers : List Marker) (trees : List FileTree) : Cache.Entry → Prop
  | read {mode : ParseMode} {tree : FileTree} {path file source : String} {node : Node}
      {content : ByteArray} (named : mode.Named) (scanned : tree ∈ trees)
      (looked : tree.stat path = .ok node) (read : tree.read path = .ok content)
      (decoded : String.fromUTF8? content = some source)
      (labelled : Text.endsWith ".ts".toList file.toList =
        Text.endsWith ".ts".toList path.toList) :
      Truthful markers trees
        ⟨Cache.Result.key (ofMode markers mode).fingerprint path, node.size, node.modified,
          .ofSource (ofMode markers mode) file source⟩

theorem Truthful.cons
    {markers : List Marker} {trees : List FileTree} {entry : Cache.Entry} (tree : FileTree)
    (truthful : Truthful markers trees entry) : Truthful markers (tree :: trees) entry := by
  cases truthful with
  | read named scanned looked read decoded labelled =>
    exact .read named (List.mem_cons_of_mem tree scanned) looked read decoded labelled

theorem scansDeclarations_ofMode (markers : List Marker) (mode : ParseMode) (file : String) :
    (ofMode markers mode).scansDeclarations file = Text.endsWith ".ts".toList file.toList := by
  simp [ofMode, Extraction.Settings.scansDeclarations]

namespace Scan

variable {markers : List Marker} {mode : ParseMode} {tree : FileTree} {trees : List FileTree}

/-! ## Looking for a result -/

section Looking

variable {job : Job} {store after : Store} {cache : Cache.Result}

/-- What a cache holds after a look, it held before. -/
def Touched (cache touched : Cache.Result) : Prop :=
  ∀ entry ∈ touched.entries, entry ∈ cache.entries

theorem touched_of_get
    {touched : Cache.Result} {fingerprint path : String} {size modified : Int}
    {result? : Option Extraction}
    (served : cache.get fingerprint path size modified = (result?, touched)) :
    Touched cache touched := by
  intro entry member
  have after : touched = (cache.get fingerprint path size modified).2 := by rw [served]
  rw [after] at member
  exact Cache.Result.mem_of_mem_get member

/-- A look that settles a job finds no file, or an entry of the file's key and stamp. -/
theorem Job.settled_cases
    {outcome : Except Fault (Extraction × Bool)} (shared : store.results = some cache)
    (looked : job.look store = (.settled outcome, after)) :
    (∃ fault, store.tree.stat job.path = .error fault ∧
        outcome = .error (.during .statFile fault) ∧ after = store) ∨
      ∃ node entry touched, store.tree.stat job.path = .ok node ∧ entry ∈ cache.entries ∧
        entry.key = Cache.Result.key store.settings.fingerprint job.path ∧
          entry.size = node.size ∧ entry.modified = node.modified ∧
            outcome = .ok (entry.result, true) ∧
              after = { store with results := some touched } ∧ Touched cache touched := by
  simp only [Job.look, shared] at looked
  cases stat : store.tree.stat job.path with
  | error fault =>
    simp only [stat, Prod.mk.injEq, Look.settled.injEq] at looked
    exact Or.inl ⟨fault, rfl, looked.1.symm, looked.2.symm⟩
  | ok node =>
    rcases served : cache.get store.settings.fingerprint job.path node.size node.modified with
      ⟨_ | result, touched⟩
    · simp [stat, served] at looked
    · simp only [stat, served, Prod.mk.injEq, Look.settled.injEq] at looked
      obtain ⟨entry, member, sameKey, sameSize, sameTime, rfl⟩ :=
        Cache.Result.exists_entry_of_get (congrArg Prod.fst served)
      exact Or.inr ⟨node, entry, touched, rfl, member, sameKey, sameSize, sameTime,
        looked.1.symm, looked.2.symm, touched_of_get served⟩

/-- A look that leaves a job unread finds the file and stamps it. -/
theorem Job.unread_cases
    {stamp : Option Stamp} (shared : store.results = some cache)
    (looked : job.look store = (.unread stamp, after)) :
    ∃ node touched, store.tree.stat job.path = .ok node ∧
      stamp = some ⟨node.size, node.modified⟩ ∧
        after = { store with results := some touched } ∧ Touched cache touched := by
  simp only [Job.look, shared] at looked
  cases stat : store.tree.stat job.path with
  | error fault => simp [stat] at looked
  | ok node =>
    rcases served : cache.get store.settings.fingerprint job.path node.size node.modified with
      ⟨_ | result, touched⟩
    · simp only [stat, served, Prod.mk.injEq, Look.unread.injEq] at looked
      exact ⟨node, touched, rfl, looked.1.symm, looked.2.symm, touched_of_get served⟩
    · simp [stat, served] at looked

end Looking

/-! ## Jobs with a truthful cache -/

theorem Job.freshOutcome_of_read
    {job : Job} {settings : Extraction.Settings} {content : ByteArray} {source : String}
    (read : tree.read job.path = .ok content) (decoded : String.fromUTF8? content = some source) :
    job.freshOutcome settings tree = .ok (.ofSource settings job.file source) := by
  have loaded : (Cache.Content.unbounded.load tree job.path).outcome = .ok content := by
    refine ok_of_toOption ?_
    rw [tree.load_toOption, read]
    rfl
  simp only [Job.freshOutcome, loaded, Extraction.ofContent, decoded]

/-- A fresh result comes from the text of the file. -/
theorem Job.read_of_freshOutcome
    {job : Job} {settings : Extraction.Settings} {result : Extraction}
    (fresh : job.freshOutcome settings tree = .ok result) :
    ∃ content source, tree.read job.path = .ok content ∧
      String.fromUTF8? content = some source ∧ result = .ofSource settings job.file source := by
  unfold Job.freshOutcome at fresh
  cases loaded : (Cache.Content.unbounded.load tree job.path).outcome with
  | error fault => simp [loaded] at fresh
  | ok content =>
    have read : tree.read job.path = .ok content := by
      refine ok_of_toOption ?_
      rw [← tree.load_toOption, loaded]
      rfl
    cases decoded : String.fromUTF8? content with
    | none => simp [loaded, Extraction.ofContent, decoded] at fresh
    | some source =>
      simp only [loaded, Extraction.ofContent, decoded, Except.ok.injEq] at fresh
      exact ⟨content, source, read, decoded, fresh.symm⟩

/-- What a job brings beside what its file gives: both fail, or both give results that agree, and
a result that was not served from the cache is the file's own. -/
def Faithful : Except Fault Extraction → Except Fault (Extraction × Bool) → Prop
  | .error _, .error _ => True
  | .ok fresh, .ok (result, cached) => result.Agrees fresh ∧ (cached = false → result = fresh)
  | _, _ => False

/-- With a truthful cache every job brings what agrees with its file. -/
def cachedContract (markers : List Marker) (mode : ParseMode) (tree : FileTree)
    (trees : List FileTree) : Contract where
  Sound store :=
    store.settings = ofMode markers mode ∧ store.tree = tree ∧ store.contents.Serves tree ∧
      ∃ cache, store.results = some cache ∧
        ∀ entry ∈ cache.entries, Truthful markers (tree :: trees) entry
  Stamped job stamp :=
    ∃ node, tree.stat job.path = .ok node ∧ stamp = some ⟨node.size, node.modified⟩
  Brings job outcome := Faithful (job.freshOutcome (ofMode markers mode) tree) outcome

theorem freshOutcome_of_stat_error
    {job : Job} {settings : Extraction.Settings} {fault : Fault}
    (failed : tree.stat job.path = .error fault) :
    ∃ reported, job.freshOutcome settings tree = .error reported := by
  cases fresh : job.freshOutcome settings tree with
  | error reported => exact ⟨reported, rfl⟩
  | ok result =>
    obtain ⟨content, _, read, _, _⟩ := Job.read_of_freshOutcome fresh
    have unreadable := FileTree.read_of_stat_error failed
    rw [read] at unreadable
    cases unreadable

/-- A truthful entry that fits the file agrees with it. -/
theorem faithful_of_truthful
    {job : Job} {node : Node} {entry : Cache.Entry}
    (determined : Determined (tree :: trees)) (named : mode.Named)
    (labelled : Text.endsWith ".ts".toList job.file.toList =
      Text.endsWith ".ts".toList job.path.toList)
    (looked : tree.stat job.path = .ok node)
    (truthful : Truthful markers (tree :: trees) entry)
    (sameKey : entry.key = Cache.Result.key (ofMode markers mode).fingerprint job.path)
    (sameSize : entry.size = node.size) (sameTime : entry.modified = node.modified) :
    Faithful (job.freshOutcome (ofMode markers mode) tree) (.ok (entry.result, true)) := by
  cases truthful with
  | @read entryMode entryTree path file source entryNode content entryNamed scanned entryLooked
      entryRead decoded entryLabelled =>
    obtain ⟨rfl, rfl⟩ := key_inj entryNamed named sameKey
    have read : tree.read job.path = .ok content := by
      refine ok_of_toOption ?_
      have same := determined tree List.mem_cons_self entryTree scanned job.path node entryNode
        looked entryLooked (Int.ofNat_inj.mp sameSize).symm sameTime.symm
      rw [same, entryRead]
      rfl
    rw [Job.freshOutcome_of_read read decoded]
    refine ⟨Extraction.ofSource_agrees ?_ source, fun uncached => by cases uncached⟩
    rw [scansDeclarations_ofMode, scansDeclarations_ofMode, entryLabelled, labelled]

end Scan

end ImportAudit
