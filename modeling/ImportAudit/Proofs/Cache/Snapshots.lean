import ImportAudit.Cache.Content
import ImportAudit.Proofs.FileTree.Following
import Mathlib.Algebra.GroupWithZero.Nat
import Mathlib.Data.List.Nodup

/-!
# Snapshots of files

A content cache under any run of reads and closes. Every read finds the files as they are by then,
so between two requests a file may go, come, or make room for another one of its name, and a device
may map its files or not. A read does one of three things: it serves what is held, it takes in the
content of a file for which there is room, or it fails and leaves everything but two counts as it
was. So what is served between two closes is what the file held when it was first read.
-/

namespace ImportAudit.Cache.Content

inductive Request
  | read (mappable : Bool) (tree : FileTree) (path : String)
  | close

namespace Request

def apply (cache : Content) : Request → Content
  | read mappable tree path => (cache.readWhere mappable tree path).cache
  | close => cache.close

def isRead : Request → Bool
  | read _ _ _ => true
  | close => false

end Request

def after (fresh : Content) : List Request → Content
  | [] => fresh
  | request :: earlier => request.apply (after fresh earlier)

section Requests

variable (cache : Content) (mappable : Bool) (tree : FileTree) (path : String)

@[simp]
theorem apply_read :
    (Request.read mappable tree path).apply cache = (cache.readWhere mappable tree path).cache :=
  rfl

@[simp]
theorem apply_close : Request.close.apply cache = cache.close := rfl

@[simp]
theorem isRead_close : Request.close.isRead = false := rfl

@[simp]
theorem after_nil : after cache [] = cache := rfl

@[simp]
theorem after_cons (request : Request) (earlier : List Request) :
    after cache (request :: earlier) = request.apply (after cache earlier) := rfl

@[simp]
theorem hits_close : cache.close.hits = cache.hits := rfl

@[simp]
theorem misses_close : cache.close.misses = cache.misses := rfl

@[simp]
theorem loaded_close : cache.close.loaded = cache.loaded := rfl

@[simp]
theorem get?_close : cache.close.get? path = none := rfl

end Requests

/-- There is room for a content beside those that are held. -/
structure Admits (cache : Content) (content : ByteArray) : Prop where
  files : 0 < cache.maxFiles → (cache.size : Int) < cache.maxFiles
  bytes : 0 < cache.maxBytes → ((cache.bytes + content.size : Nat) : Int) ≤ cache.maxBytes

/-! ## One read -/

/-- A load that succeeds brings the content of a file for which there is room. -/
theorem loadWhere_ok
    {cache : Content} {mappable : Bool} {tree : FileTree} {path : String} {content : ByteArray}
    (loaded : (cache.loadWhere mappable tree path).outcome = .ok content) :
    (∃ modified, tree.openNode path = .ok (.file content modified)) ∧ cache.Admits content := by
  unfold loadWhere at loaded
  by_cases filesFull : 0 < cache.maxFiles ∧ cache.maxFiles ≤ cache.size
  · rw [if_pos filesFull] at loaded
    cases loaded
  · rw [if_neg filesFull] at loaded
    cases opened : tree.openNode path with
    | error fault =>
      rw [opened] at loaded
      cases loaded
    | ok node =>
      simp only [opened] at loaded
      by_cases bytesFull : 0 < cache.maxBytes ∧ cache.maxBytes < (cache.bytes + node.size : Nat)
      · rw [if_pos bytesFull] at loaded
        cases loaded
      · rw [if_neg bytesFull] at loaded
        cases node with
        | directory entries => cases loaded
        | link target => cases loaded
        | file held modified =>
          cases loaded
          refine ⟨⟨modified, rfl⟩, ⟨fun limited => ?_, fun limited => ?_⟩⟩
          · omega
          · have within := not_and.mp bytesFull limited
            exact Int.not_lt.mp within

/-- All that a read can do: serve what is held, take in the content of a file, or fail. -/
theorem readWhere_cases (cache : Content) (mappable : Bool) (tree : FileTree) (path : String) :
    (∃ content, cache.get? path = some content ∧
      cache.readWhere mappable tree path =
        ⟨.ok content, { cache with hits := cache.hits + 1 }, []⟩) ∨
    cache.get? path = none ∧
      ((∃ content modified mapFailures log,
          tree.openNode path = .ok (.file content modified) ∧ cache.Admits content ∧
            cache.readWhere mappable tree path =
              ⟨.ok content,
                { cache with
                  entries := (path, content) :: cache.entries
                  bytes := cache.bytes + content.size
                  loaded := cache.loaded + 1
                  mapFailures }, log⟩) ∨
        ∃ fault mapFailures log, cache.readWhere mappable tree path =
          ⟨.error fault, { cache with misses := cache.misses + 1, mapFailures }, log⟩) := by
  unfold readWhere
  cases found : cache.get? path with
  | some content => exact Or.inl ⟨content, rfl, rfl⟩
  | none =>
    refine Or.inr ⟨rfl, ?_⟩
    rcases loaded : cache.loadWhere mappable tree path with ⟨fault | content, mapFailed⟩
    · exact Or.inr ⟨fault, _, _, rfl⟩
    · obtain ⟨⟨modified, opened⟩, admits⟩ := loadWhere_ok (congrArg Load.outcome loaded)
      exact Or.inl ⟨content, modified, _, _, opened, admits, rfl⟩

theorem readWhere_of_held
    {cache : Content} {path : String} {content : ByteArray}
    (held : cache.get? path = some content) (mappable : Bool) (tree : FileTree) :
    (cache.readWhere mappable tree path).outcome = .ok content := by
  simp only [readWhere, held]

/-- What a read serves is held from then on. -/
theorem held_of_readWhere
    {cache : Content} {mappable : Bool} {tree : FileTree} {path : String} {content : ByteArray}
    (served : (cache.readWhere mappable tree path).outcome = .ok content) :
    (cache.readWhere mappable tree path).cache.get? path = some content := by
  rcases cache.readWhere_cases mappable tree path with
    ⟨held, found, done⟩ | ⟨_, ⟨taken, _, _, _, _, _, done⟩ | ⟨_, _, _, done⟩⟩
  · rw [done] at served ⊢
    cases served
    exact found
  · rw [done] at served ⊢
    cases served
    exact List.lookup_cons_self
  · rw [done] at served
    cases served

/-- A read that fails leaves the contents and their accounts as they are. -/
theorem readWhere_error
    {cache : Content} {mappable : Bool} {tree : FileTree} {path : String} {fault : Fault}
    (failed : (cache.readWhere mappable tree path).outcome = .error fault) :
    (cache.readWhere mappable tree path).cache.entries = cache.entries ∧
      (cache.readWhere mappable tree path).cache.bytes = cache.bytes ∧
        (cache.readWhere mappable tree path).cache.loaded = cache.loaded := by
  rcases cache.readWhere_cases mappable tree path with
    ⟨_, _, done⟩ | ⟨_, ⟨_, _, _, _, _, _, done⟩ | ⟨_, _, _, done⟩⟩
  · rw [done] at failed
    cases failed
  · rw [done] at failed
    cases failed
  · rw [done]
    exact ⟨rfl, rfl, rfl⟩

section ReadWhere

variable (cache : Content) (mappable : Bool) (tree : FileTree) (path : String)

@[simp]
theorem maxFiles_readWhere :
    (cache.readWhere mappable tree path).cache.maxFiles = cache.maxFiles := by
  rcases cache.readWhere_cases mappable tree path with
    ⟨_, _, done⟩ | ⟨_, ⟨_, _, _, _, _, _, done⟩ | ⟨_, _, _, done⟩⟩
  all_goals rw [done]

@[simp]
theorem maxBytes_readWhere :
    (cache.readWhere mappable tree path).cache.maxBytes = cache.maxBytes := by
  rcases cache.readWhere_cases mappable tree path with
    ⟨_, _, done⟩ | ⟨_, ⟨_, _, _, _, _, _, done⟩ | ⟨_, _, _, done⟩⟩
  all_goals rw [done]

/-- A read is counted as a hit, as a miss or as a load. -/
theorem reads_readWhere :
    (cache.readWhere mappable tree path).cache.hits +
        (cache.readWhere mappable tree path).cache.misses +
          (cache.readWhere mappable tree path).cache.loaded =
      cache.hits + cache.misses + cache.loaded + 1 := by
  rcases cache.readWhere_cases mappable tree path with
    ⟨_, _, done⟩ | ⟨_, ⟨_, _, _, _, _, _, done⟩ | ⟨_, _, _, done⟩⟩
  all_goals
    rw [done]
    simp only
    omega

variable {path} {other : String}

/-- A read of another path brings and removes nothing. -/
@[simp]
theorem get?_readWhere_of_ne (differs : path ≠ other) :
    (cache.readWhere mappable tree other).cache.get? path = cache.get? path := by
  rcases cache.readWhere_cases mappable tree other with
    ⟨_, _, done⟩ | ⟨_, ⟨_, _, _, _, _, _, done⟩ | ⟨_, _, _, done⟩⟩
  · rw [done]
    rfl
  · rw [done]
    simp only [get?, List.lookup_cons, beq_eq_false_iff_ne.mpr differs]
  · rw [done]
    rfl

variable {cache} {content : ByteArray}

/-- What is held stays through every read. -/
theorem get?_readWhere_of_held
    (held : cache.get? path = some content) (mappable : Bool) (tree : FileTree) (other : String) :
    (cache.readWhere mappable tree other).cache.get? path = some content := by
  by_cases same : path = other
  · rw [← same]
    exact held_of_readWhere (readWhere_of_held held mappable tree)
  · rwa [get?_readWhere_of_ne _ _ _ same]

end ReadWhere

/-! ## Accounts -/

/-- The accounts of a cache are those of its contents, one for each path and within the limits. -/
structure Accounted (cache : Content) : Prop where
  unique : (cache.entries.map (·.1)).Nodup
  bytes : cache.bytes = (cache.entries.map (·.2.size)).sum
  filesWithin : 0 < cache.maxFiles → (cache.size : Int) ≤ cache.maxFiles
  bytesWithin : 0 < cache.maxBytes → (cache.bytes : Int) ≤ cache.maxBytes

theorem accounted_new (maxFiles maxBytes : Int) : (new maxFiles maxBytes).Accounted where
  unique := List.nodup_nil
  bytes := rfl
  filesWithin := Int.le_of_lt
  bytesWithin := Int.le_of_lt

theorem not_mem_of_get?
    {cache : Content} {path : String} (missing : cache.get? path = none) :
    path ∉ cache.entries.map (·.1) := by
  intro member
  obtain ⟨entry, isEntry, rfl⟩ := List.mem_map.mp member
  have differs := List.lookup_eq_none_iff.mp missing entry isEntry
  simp at differs

theorem Accounted.close {cache : Content} : cache.close.Accounted where
  unique := List.nodup_nil
  bytes := rfl
  filesWithin := Int.le_of_lt
  bytesWithin := Int.le_of_lt

/-- Every request keeps the accounts. -/
theorem Accounted.apply
    {cache : Content} (accounted : cache.Accounted) (request : Request) :
    (request.apply cache).Accounted := by
  cases request with
  | close => exact .close
  | read mappable tree path =>
    rw [apply_read]
    rcases cache.readWhere_cases mappable tree path with
      ⟨_, _, done⟩ | ⟨missing, ⟨content, _, _, _, _, admits, done⟩ | ⟨_, _, _, done⟩⟩
    · rw [done]
      exact { accounted with }
    · rw [done]
      refine ⟨?_, ?_, ?_, admits.bytes⟩
      · exact List.nodup_cons.mpr ⟨not_mem_of_get? missing, accounted.unique⟩
      · simp only [List.map_cons, List.sum_cons, accounted.bytes]
        exact Nat.add_comm _ _
      · intro limited
        have room := admits.files limited
        simp only [size, List.length_cons] at room ⊢
        omega
    · rw [done]
      exact { accounted with }

/-! ## Histories -/

section Histories

variable {fresh : Content} {history : List Request} {path : String} {content : ByteArray}

theorem accounted_after (accounted : fresh.Accounted) (history : List Request) :
    (after fresh history).Accounted := by
  induction history with
  | nil => exact accounted
  | cons request earlier inductionHypothesis => exact inductionHypothesis.apply request

theorem limits_after (fresh : Content) (history : List Request) :
    (after fresh history).maxFiles = fresh.maxFiles ∧
      (after fresh history).maxBytes = fresh.maxBytes := by
  induction history with
  | nil => exact ⟨rfl, rfl⟩
  | cons request earlier inductionHypothesis =>
    cases request with
    | close => exact inductionHypothesis
    | read mappable tree path => simpa using inductionHypothesis

/-- Every read is counted once: as a hit, as a miss, or as a load. -/
theorem reads_after (fresh : Content) (history : List Request) :
    (after fresh history).hits + (after fresh history).misses + (after fresh history).loaded =
      fresh.hits + fresh.misses + fresh.loaded + history.countP (·.isRead) := by
  induction history with
  | nil => rfl
  | cons request earlier inductionHypothesis =>
    cases request with
    | close => simpa using inductionHypothesis
    | read mappable tree path =>
      have counted := (after fresh earlier).reads_readWhere mappable tree path
      rw [after_cons, apply_read, List.countP_cons_of_pos rfl]
      omega

/-- What is held stays until the cache is closed. -/
theorem get?_after_append
    {earlier : List Request} (held : (after fresh earlier).get? path = some content)
    {later : List Request} (unclosed : Request.close ∉ later) :
    (after fresh (later ++ earlier)).get? path = some content := by
  induction later with
  | nil => exact held
  | cons request later inductionHypothesis =>
    have stillHeld := inductionHypothesis fun closed => unclosed (List.mem_cons_of_mem _ closed)
    cases request with
    | close => exact absurd List.mem_cons_self unclosed
    | read mappable tree other =>
      rw [List.cons_append, after_cons, apply_read]
      exact get?_readWhere_of_held stillHeld mappable tree other

/-- A read of a path since the last close has served a content. -/
structure ServedSince (fresh : Content) (history : List Request) (path : String)
    (content : ByteArray) (later : List Request) (mappable : Bool) (tree : FileTree)
    (earlier : List Request) : Prop where
  split : history = later ++ .read mappable tree path :: earlier
  unclosed : Request.close ∉ later
  served : ((after fresh earlier).readWhere mappable tree path).outcome = .ok content

/-- The content of a file when it was first read since the last close. -/
def Snapshot (fresh : Content) (history : List Request) (path : String) (content : ByteArray) :
    Prop :=
  ∃ later mappable tree earlier modified,
    ServedSince fresh history path content later mappable tree earlier ∧
      tree.openNode path = .ok (.file content modified) ∧
        ∀ other between mappable tree start,
          ¬ ServedSince fresh earlier path other between mappable tree start

theorem ServedSince.held
    {later earlier : List Request} {mappable : Bool} {tree : FileTree}
    (since : ServedSince fresh history path content later mappable tree earlier) :
    (after fresh history).get? path = some content := by
  rw [since.split]
  have held : (after fresh (.read mappable tree path :: earlier)).get? path = some content :=
    held_of_readWhere since.served
  exact get?_after_append held since.unclosed

theorem ServedSince.cons
    {later earlier : List Request} {mappable : Bool} {tree : FileTree}
    (since : ServedSince fresh history path content later mappable tree earlier)
    {request : Request} (unclosed : request ≠ .close) :
    ServedSince fresh (request :: history) path content (request :: later) mappable tree
      earlier where
  split := by rw [since.split, List.cons_append]
  unclosed := by
    rw [List.mem_cons, not_or]
    exact ⟨Ne.symm unclosed, since.unclosed⟩
  served := since.served

theorem Snapshot.cons
    (snapshot : Snapshot fresh history path content) {request : Request}
    (unclosed : request ≠ .close) : Snapshot fresh (request :: history) path content := by
  obtain ⟨later, mappable, tree, earlier, modified, since, opened, first⟩ := snapshot
  exact ⟨request :: later, mappable, tree, earlier, modified, since.cons unclosed, opened, first⟩

/-- Whatever is held for a path was in its file when that was first read. -/
theorem snapshot_of_held
    (empty : fresh.entries = []) (held : (after fresh history).get? path = some content) :
    Snapshot fresh history path content := by
  induction history with
  | nil =>
    simp only [after, get?, empty] at held
    cases held
  | cons request earlier inductionHypothesis =>
    cases request with
    | close => cases held
    | read mappable tree other =>
      have unclosed : Request.read mappable tree other ≠ .close := by
        intro same
        cases same
      rw [after_cons, apply_read] at held
      by_cases same : path = other
      · subst same
        rcases (after fresh earlier).readWhere_cases mappable tree path with
          ⟨_, found, done⟩ | ⟨missing, ⟨taken, modified, _, _, opened, _, done⟩ | ⟨_, _, _, done⟩⟩
        · rw [done] at held
          exact (inductionHypothesis held).cons unclosed
        · rw [done] at held
          simp only [get?, List.lookup_cons_self, Option.some.injEq] at held
          subst held
          refine ⟨[], mappable, tree, earlier, modified, ⟨rfl, List.not_mem_nil, ?_⟩, opened, ?_⟩
          · rw [done]
          · intro _ _ _ _ _ since
            rw [since.held] at missing
            cases missing
        · rw [done] at held
          exact (inductionHypothesis held).cons unclosed
      · rw [get?_readWhere_of_ne _ _ _ same] at held
        exact (inductionHypothesis held).cons unclosed

/-- A content cache with any limits, after any history of reads and closes, while files go, come
and are replaced. It holds one content for each path, and its bytes are theirs; it keeps to its
limits. Every read has been counted as a hit, a miss or a load. A read of a path that is held
succeeds, whatever the limits. One that fails leaves contents, bytes and loads as they are. One
that succeeds brings what the file held when it was first read since the last close, and so does
every later one until the next. -/
theorem snapshots_accounted (maxFiles maxBytes : Int) (history : List Request) :
    ((after (new maxFiles maxBytes) history).entries.map (·.1)).Nodup ∧
    (after (new maxFiles maxBytes) history).size =
      (after (new maxFiles maxBytes) history).entries.length ∧
    (after (new maxFiles maxBytes) history).bytes =
      ((after (new maxFiles maxBytes) history).entries.map (·.2.size)).sum ∧
    (0 < maxFiles → ((after (new maxFiles maxBytes) history).size : Int) ≤ maxFiles) ∧
    (0 < maxBytes → ((after (new maxFiles maxBytes) history).bytes : Int) ≤ maxBytes) ∧
    (after (new maxFiles maxBytes) history).hits + (after (new maxFiles maxBytes) history).misses +
      (after (new maxFiles maxBytes) history).loaded = history.countP (·.isRead) ∧
    ∀ mappable tree path,
      (∀ content, (after (new maxFiles maxBytes) history).get? path = some content →
        ((after (new maxFiles maxBytes) history).readWhere mappable tree path).outcome =
          .ok content) ∧
      (∀ fault, ((after (new maxFiles maxBytes) history).readWhere mappable tree path).outcome =
          .error fault →
        (after (new maxFiles maxBytes) (.read mappable tree path :: history)).entries =
            (after (new maxFiles maxBytes) history).entries ∧
          (after (new maxFiles maxBytes) (.read mappable tree path :: history)).bytes =
              (after (new maxFiles maxBytes) history).bytes ∧
            (after (new maxFiles maxBytes) (.read mappable tree path :: history)).loaded =
              (after (new maxFiles maxBytes) history).loaded) ∧
      ∀ content, ((after (new maxFiles maxBytes) history).readWhere mappable tree path).outcome =
          .ok content →
        Snapshot (new maxFiles maxBytes) (.read mappable tree path :: history) path content ∧
          ∀ later, Request.close ∉ later → ∀ mappable' tree',
            ((after (new maxFiles maxBytes)
              (later ++ .read mappable tree path :: history)).readWhere mappable' tree'
                path).outcome = .ok content := by
  have accounted := accounted_after (accounted_new maxFiles maxBytes) history
  obtain ⟨sameFiles, sameBytes⟩ := limits_after (new maxFiles maxBytes) history
  have reads := reads_after (new maxFiles maxBytes) history
  refine ⟨accounted.unique, rfl, accounted.bytes, ?_, ?_, ?_, ?_⟩
  · intro limited
    have within := accounted.filesWithin
    rw [sameFiles] at within
    exact within limited
  · intro limited
    have within := accounted.bytesWithin
    rw [sameBytes] at within
    exact within limited
  · rw [reads]
    exact Nat.zero_add _
  · intro mappable tree path
    refine ⟨fun content held => readWhere_of_held held mappable tree,
      fun fault failed => readWhere_error failed, fun content served => ?_⟩
    have held : (after (new maxFiles maxBytes) (.read mappable tree path :: history)).get? path =
        some content := held_of_readWhere served
    refine ⟨snapshot_of_held rfl held, fun later unclosed mappable' tree' => ?_⟩
    exact readWhere_of_held (get?_after_append held unclosed) mappable' tree'

end Histories

def twoFiles : FileTree :=
  ⟨[("a.ts", .file ⟨#[97]⟩ 1), ("b.ts", .file ⟨#[98, 98]⟩ 2)]⟩

/-- One of the two files is gone, and the other has made room for a new one. -/
def oneReplaced : FileTree :=
  ⟨[("a.ts", .file ⟨#[65, 65, 65]⟩ 3)]⟩

/-- There is room for one file. It is read on a device that maps nothing, and served as it was
after it was replaced; the other file finds no room. -/
theorem snapshots_accounted_replaced :
    (∃ fault, ((after (new 1 0) [.read false twoFiles "a.ts"]).readWhere true twoFiles
        "b.ts").outcome = .error fault) ∧
      ((after (new 1 0) [.read true twoFiles "b.ts", .read false twoFiles "a.ts"]).size : Int) ≤
          1 ∧
        ((after (new 1 0) [.read true twoFiles "b.ts", .read false twoFiles "a.ts"]).readWhere true
          oneReplaced "a.ts").outcome = .ok ⟨#[97]⟩ := by
  have isName : Path.IsName "a.ts" := by decide
  have opened : twoFiles.openNode "a.ts" = .ok (.file ⟨#[97]⟩ 1) := by
    rw [← Path.below_singleton isName]
    exact FileTree.openNode_of_nodeAt? (List.forall_mem_singleton.mpr isName) (by simp) rfl
      (by simp)
  have read : ((new 1 0).readWhere false twoFiles "a.ts").outcome = .ok ⟨#[97]⟩ := by
    simp [readWhere, loadWhere, new, get?, size, opened]
  have full : ∃ fault, ((after (new 1 0) [.read false twoFiles "a.ts"]).readWhere true twoFiles
      "b.ts").outcome = .error fault := by
    refine ⟨.fileLimit 1, ?_⟩
    simp [readWhere, loadWhere, new, get?, size, opened, List.lookup_cons]
  obtain ⟨_, _, _, within, _, _, _⟩ :=
    snapshots_accounted 1 0 [.read true twoFiles "b.ts", .read false twoFiles "a.ts"]
  obtain ⟨_, _, _, _, _, _, reads⟩ := snapshots_accounted 1 0 []
  refine ⟨full, within (by decide), ?_⟩
  exact ((reads false twoFiles "a.ts").2.2 _ read).2 [.read true twoFiles "b.ts"] (by simp) true
    oneReplaced

end ImportAudit.Cache.Content
