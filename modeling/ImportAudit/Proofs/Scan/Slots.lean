import ImportAudit.Proofs.Scan.Concurrent

/-!
# Slots and verdicts

The two rows of slots that a collector fills, one for results and one for faults. Where their
counts add up to the number of files, every file has its result or its fault, and the verdict read
off the slots is the one that the messages of the jobs give in the order of the files.
-/

namespace ImportAudit.Scan

variable {contract : Contract}

/-! ## Rows of slots -/

section Slots

variable {α β : Type}

theorem countP_fill
    {slots : List (Option α)} {place : Nat} (vacant : slots[place]? = some none) (value : α) :
    (slots.set place (some value)).countP Option.isSome = slots.countP Option.isSome + 1 := by
  obtain ⟨inside, empty⟩ := List.getElem?_eq_some_iff.mp vacant
  rw [List.countP_set inside, empty]
  simp

theorem length_of_filled?
    {slots : List (Option α)} {values : List α} (filled : filled? slots = some values) :
    values.length = slots.length ∧ slots.countP Option.isSome = slots.length := by
  induction slots generalizing values with
  | nil =>
    simp only [filled?, Option.some.injEq] at filled
    subst filled
    exact ⟨rfl, rfl⟩
  | cons slot slots inductionHypothesis =>
    cases slot with
    | none => simp [filled?] at filled
    | some value =>
      obtain ⟨others, restFilled, rfl⟩ := Option.map_eq_some_iff.mp filled
      obtain ⟨sameLength, counted⟩ := inductionHypothesis restFilled
      simp [sameLength, counted]

/-- Two rows of slots, of which no place is filled in both. -/
def Apart (left : List (Option α)) (right : List (Option β)) : Prop :=
  ∀ (place : Nat) (value : α), left[place]? = some (some value) → right[place]? = some none

theorem Apart.tail
    {first : Option α} {other : Option β} {left : List (Option α)} {right : List (Option β)}
    (apart : Apart (first :: left) (other :: right)) : Apart left right := by
  intro place value filled
  have shifted := apart (place + 1) value
  simp only [List.getElem?_cons_succ] at shifted
  exact shifted filled

/-- Of slots that are nowhere filled in both lists, no more are filled than one list has. -/
theorem Apart.count_le
    {left : List (Option α)} {right : List (Option β)} (apart : Apart left right)
    (sameLength : left.length = right.length) :
    left.countP Option.isSome + right.countP Option.isSome ≤ left.length := by
  induction left generalizing right with
  | nil =>
    have empty : right = [] := List.length_eq_zero_iff.mp sameLength.symm
    simp [empty]
  | cons first left inductionHypothesis =>
    cases right with
    | nil => simp at sameLength
    | cons other right =>
      have shorter := inductionHypothesis apart.tail (by simpa using sameLength)
      cases first with
      | none =>
        cases other <;> simp <;> omega
      | some value =>
        have vacant := apart 0 value rfl
        simp only [List.getElem?_cons_zero, Option.some.injEq] at vacant
        subst vacant
        simp
        omega

/-- Where the counts add up to the number of places, every place is filled. -/
theorem Apart.filled_of_count
    {left : List (Option α)} {right : List (Option β)} (apart : Apart left right)
    (sameLength : left.length = right.length)
    (all : left.countP Option.isSome + right.countP Option.isSome = left.length)
    {place : Nat} (inside : place < left.length) :
    (∃ value, left[place]? = some (some value)) ∨ ∃ value, right[place]? = some (some value) := by
  induction left generalizing right place with
  | nil => simp at inside
  | cons first left inductionHypothesis =>
    cases right with
    | nil => simp at sameLength
    | cons other right =>
      have sameRest : left.length = right.length := by simpa using sameLength
      have atMost := apart.tail.count_le sameRest
      have oneFilled : first.isSome = true ∨ other.isSome = true := by
        cases first <;> cases other <;> simp at all ⊢
        omega
      have restAll :
          left.countP Option.isSome + right.countP Option.isSome = left.length := by
        cases first with
        | none =>
          cases other <;> simp at all oneFilled
          omega
        | some value =>
          have vacant := apart 0 value rfl
          simp only [List.getElem?_cons_zero, Option.some.injEq] at vacant
          subst vacant
          simp at all
          omega
      cases place with
      | zero =>
        rcases oneFilled with filled | filled
        · exact Or.inl (by simpa [Option.isSome_iff_exists] using filled)
        · exact Or.inr (by simpa [Option.isSome_iff_exists] using filled)
      | succ place =>
        simpa using inductionHypothesis apart.tail sameRest restAll (by simpa using inside)

end Slots

/-! ## The verdict -/

/-- The verdict that an outcome stands for, given how many results came from the cache. -/
def Verdict.of (cacheHits : Nat) : Except Fault Built → Verdict
  | .error fault => .failed fault
  | .ok scan => .built scan.index { scan.stats with cacheHits }

/-- A result without the mark that says where it came from. -/
def unmarked (found : String × Extraction × Bool) : String × Extraction :=
  (found.1, found.2.1)

theorem assemble_of_unmarked
    {root componentExtension : String} {files : List String}
    {results others : List (String × Extraction × Bool)}
    (same : results.map unmarked = others.map unmarked) :
    assemble root componentExtension files results =
      assemble root componentExtension files others := by
  have throughUnmarked (found : List (String × Extraction × Bool)) :
      assemble root componentExtension files found =
        { root
          files
          imports := (found.map unmarked).map fun (file, result) => (file, result.imports)
          declarations := (found.map unmarked).filterMap fun (file, result) =>
            if result.declarations.isEmpty then none else some (file, result.declarations)
          components := (Catalog.ofFiles files componentExtension).components } := by
    simp only [assemble, List.map_map, List.filterMap_map]
    rfl
  rw [throughUnmarked results, throughUnmarked others, same]

theorem statsOf_of_unmarked
    {workers : Int} {files : List String} {index : Index}
    {results others : List (String × Extraction × Bool)}
    (same : results.map unmarked = others.map unmarked) (cacheHits : Nat) :
    { statsOf workers files results index with cacheHits } =
      { statsOf workers files others index with cacheHits } := by
  have throughUnmarked (found : List (String × Extraction × Bool)) :
      { statsOf workers files found index with cacheHits } =
        ({ filesDiscovered := files.length
           filesIndexed := (found.map unmarked).length
           filesFailed := 0
           cacheHits
           importsExtracted :=
             total ((found.map unmarked).map fun (_, result) => result.imports.names.length)
           declarationsExtracted :=
             total ((found.map unmarked).map fun (_, result) => result.declarations.length)
           componentsFound := index.components.length
           workerCount := min (workersFor workers) files.length
           totalMilliseconds := 0 } : ScanStats) := by
    simp only [statsOf, List.map_map, List.length_map]
    rfl
  rw [throughUnmarked results, throughUnmarked others, same]

/-- What the messages of some jobs amount to, read off their slots. -/
structure Agrees (jobs : List Job) (results : List (Option Extraction))
    (faults : List (Option Fault)) (messages : List Message) : Prop where
  onFault : ∀ fault, resultsOf messages = .error fault →
    firstFault? (jobs.map (·.file)) faults = some fault
  onResults : ∀ found, resultsOf messages = .ok found →
    firstFault? (jobs.map (·.file)) faults = none ∧
      ∃ extractions, filled? results = some extractions ∧
        found.map unmarked = (jobs.map (·.file)).zip extractions

/-- Slots that are filled as the contract says are those of messages that keep it. -/
theorem exists_messages
    {jobs : List Job} {results : List (Option Extraction)} {faults : List (Option Fault)}
    (resultSlots : results.length = jobs.length) (faultSlots : faults.length = jobs.length)
    (answered : ∀ (place : Nat) (job : Job), jobs[place]? = some job →
      (∃ fault, faults[place]? = some (some fault) ∧ contract.Brings job (.error fault)) ∨
        (faults[place]? = some none ∧ ∃ result cached, results[place]? = some (some result) ∧
          contract.Brings job (.ok (result, cached)))) :
    ∃ messages : List Message, messages.map (·.job) = jobs ∧
      (∀ message ∈ messages, contract.Brings message.job message.outcome) ∧
        Agrees jobs results faults messages := by
  -- Jobs and slots shrink together: the first two slots are those of the first job.
  induction jobs generalizing results faults with
  | nil =>
    have noResults : results = [] := List.length_eq_zero_iff.mp resultSlots
    subst noResults
    refine ⟨[], rfl, by simp, ⟨fun fault failed => by simp [resultsOf] at failed, ?_⟩⟩
    intro found gathered
    simp only [resultsOf, Except.ok.injEq] at gathered
    subst gathered
    exact ⟨by simp [firstFault?], [], rfl, rfl⟩
  | cons job jobs inductionHypothesis =>
    obtain ⟨resultSlot, results, rfl⟩ :=
      List.exists_cons_of_length_eq_add_one (by simpa using resultSlots)
    obtain ⟨faultSlot, faults, rfl⟩ :=
      List.exists_cons_of_length_eq_add_one (by simpa using faultSlots)
    obtain ⟨messages, sameJobs, brings, agrees⟩ :=
      inductionHypothesis (by simpa using resultSlots) (by simpa using faultSlots)
        (fun place other found => by simpa using answered (place + 1) other (by simpa using found))
    rcases answered 0 job rfl with ⟨fault, filled, failed⟩ | ⟨vacant, result, cached, filled, done⟩
    · simp only [List.getElem?_cons_zero, Option.some.injEq] at filled
      subst filled
      refine ⟨⟨job, .error fault⟩ :: messages, by simp [sameJobs], ?_, ⟨?_, ?_⟩⟩
      · simp only [List.forall_mem_cons]
        exact ⟨failed, brings⟩
      · intro reported found
        simp only [resultsOf, Except.error.injEq] at found
        subst found
        rfl
      · intro found gathered
        simp [resultsOf] at gathered
    · simp only [List.getElem?_cons_zero, Option.some.injEq] at vacant filled
      subst vacant filled
      refine ⟨⟨job, .ok (result, cached)⟩ :: messages, by simp [sameJobs], ?_, ⟨?_, ?_⟩⟩
      · simp only [List.forall_mem_cons]
        exact ⟨done, brings⟩
      · intro reported found
        cases rest : resultsOf messages with
        | error fault =>
          simp only [resultsOf, rest, Except.error.injEq] at found
          subst found
          simpa [firstFault?] using agrees.onFault fault rest
        | ok others => simp [resultsOf, rest] at found
      · intro found gathered
        cases rest : resultsOf messages with
        | error fault => simp [resultsOf, rest] at gathered
        | ok others =>
          simp only [resultsOf, rest, Except.ok.injEq] at gathered
          subst gathered
          obtain ⟨noFault, extractions, allFilled, sameResults⟩ := agrees.onResults others rest
          refine ⟨by simpa [firstFault?] using noFault, result :: extractions, ?_, ?_⟩
          · simp [filled?, allFilled]
          · simp [unmarked, sameResults]

end ImportAudit.Scan
