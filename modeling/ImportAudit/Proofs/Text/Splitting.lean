import ImportAudit.Text.Word
import Mathlib.Data.List.TakeWhile

/-!
# Splitting text

How runs and pieces of a text are found in a longer one. A run ends at a character that fails
its test, and a piece ends at a separator, so both split wherever such a character stands.
-/

namespace ImportAudit.Text

variable {test : Char → Bool}

/-! ## Runs -/

theorem takeWhile_append_stop
    {c : Char} (stop : test c = false) (front rest : List Char) :
    (front ++ c :: rest).takeWhile test = front.takeWhile test := by
  induction front with
  | nil => simp [stop]
  | cons head tail inductionHypothesis =>
    by_cases passes : test head = true
    · simp [passes, inductionHypothesis]
    · simp [passes]

theorem dropWhile_append_stop
    {c : Char} (stop : test c = false) (front rest : List Char) :
    (front ++ c :: rest).dropWhile test = front.dropWhile test ++ c :: rest := by
  induction front with
  | nil => simp [stop]
  | cons head tail inductionHypothesis =>
    by_cases passes : test head = true
    · simp [passes, inductionHypothesis]
    · simp [passes]

theorem runs_eq_nil
    {text : List Char} (none : text.dropWhile (fun c => !test c) = []) :
    runs test text = [] := by
  rw [runs]
  split
  · rfl
  · rename_i found
    rw [none] at found
    cases found

theorem runs_eq_cons
    {text : List Char} {head : Char} {tail : List Char}
    (first : text.dropWhile (fun c => !test c) = head :: tail) :
    runs test text = (head :: tail.takeWhile test) :: runs test (tail.dropWhile test) := by
  rw [runs]
  split
  · rename_i found
    rw [first] at found
    cases found
  · rename_i found
    rw [first] at found
    cases found
    rfl

@[simp]
theorem runs_nil : runs test [] = [] :=
  runs_eq_nil rfl

theorem runs_cons_stop
    {c : Char} (stop : test c = false) (rest : List Char) :
    runs test (c :: rest) = runs test rest := by
  have passedOver :
      (c :: rest).dropWhile (fun c => !test c) = rest.dropWhile (fun c => !test c) := by
    simp [stop]
  cases found : rest.dropWhile (fun c => !test c) with
  | nil => rw [runs_eq_nil found, runs_eq_nil (passedOver.trans found)]
  | cons head tail => rw [runs_eq_cons found, runs_eq_cons (passedOver.trans found)]

theorem runs_cons_pass
    {c : Char} (pass : test c = true) (rest : List Char) :
    runs test (c :: rest) =
      (c :: rest.takeWhile test) :: runs test (rest.dropWhile test) :=
  runs_eq_cons (by simp [pass])

/-- Runs split at every character that fails the test. -/
theorem runs_append_stop
    {c : Char} (stop : test c = false) :
    ∀ front rest : List Char,
      runs test (front ++ c :: rest) = runs test front ++ runs test rest
  | [], rest => by
    simp [runs_cons_stop stop]
  | head :: tail, rest => by
    by_cases passes : test head = true
    · have shorter := length_dropWhile_le test tail
      rw [List.cons_append, runs_cons_pass passes, runs_cons_pass passes,
        takeWhile_append_stop stop, dropWhile_append_stop stop,
        runs_append_stop stop (tail.dropWhile test) rest]
      rfl
    · have fails : test head = false := by simpa using passes
      rw [List.cons_append, runs_cons_stop fails, runs_cons_stop fails,
        runs_append_stop stop tail rest]
termination_by front => front.length
decreasing_by
  · simp only [List.length_cons]
    omega
  · simp

theorem runs_append_of_fail
    {front : List Char} (fails : ∀ c ∈ front, test c = false) (rest : List Char) :
    runs test (front ++ rest) = runs test rest := by
  induction front with
  | nil => rfl
  | cons head tail inductionHypothesis =>
    have tailFails : ∀ c ∈ tail, test c = false :=
      fun c member => fails c (List.mem_cons_of_mem head member)
    rw [List.cons_append, runs_cons_stop (fails head List.mem_cons_self),
      inductionHypothesis tailFails]

theorem runs_of_pass
    {text : List Char} (nonempty : text ≠ []) (passes : ∀ c ∈ text, test c = true) :
    runs test text = [text] := by
  cases text with
  | nil => exact absurd rfl nonempty
  | cons head tail =>
    have tailPasses : ∀ c ∈ tail, test c = true :=
      fun c member => passes c (List.mem_cons_of_mem head member)
    rw [runs_cons_pass (passes head List.mem_cons_self),
      List.takeWhile_eq_self_iff.mpr tailPasses, List.dropWhile_eq_nil_iff.mpr tailPasses,
      runs_nil]

theorem runs_append_of_pass
    {run rest : List Char} (nonempty : run ≠ []) (passes : ∀ c ∈ run, test c = true)
    (ends : ∀ c, rest.head? = some c → test c = false) :
    runs test (run ++ rest) = run :: runs test rest := by
  cases rest with
  | nil => rw [List.append_nil, runs_of_pass nonempty passes, runs_nil]
  | cons c others =>
    have stop : test c = false := ends c rfl
    rw [runs_append_stop stop, runs_of_pass nonempty passes, runs_cons_stop stop]
    rfl

theorem ne_nil_of_mem_runs
    {text run : List Char} (member : run ∈ runs test text) : run ≠ [] := by
  fun_induction runs test text with
  | case1 text found => cases member
  | case2 text head tail found inductionHypothesis =>
    rcases List.mem_cons.mp member with rfl | later
    · exact List.cons_ne_nil head _
    · exact inductionHypothesis later

/-! ## Pieces -/

theorem pieces_ne_nil (separator : Char) (text : List Char) :
    pieces separator text ≠ [] := by
  cases text with
  | nil => simp [pieces]
  | cons head tail =>
    rw [pieces]
    split
    · simp
    · split <;> simp

/-- Pieces split at every separator. -/
theorem pieces_append_separator (separator : Char) (front rest : List Char) :
    pieces separator (front ++ separator :: rest) =
      pieces separator front ++ pieces separator rest := by
  induction front with
  | nil => simp [pieces]
  | cons head tail inductionHypothesis =>
    by_cases isSeparator : head = separator
    · simp [pieces, isSeparator, inductionHypothesis]
    · obtain ⟨first, others, shape⟩ :=
        List.exists_cons_of_ne_nil (pieces_ne_nil separator tail)
      simp [pieces, isSeparator, inductionHypothesis, shape]

theorem pieces_of_free
    {separator : Char} {text : List Char} (free : separator ∉ text) :
    pieces separator text = [text] := by
  induction text with
  | nil => rfl
  | cons head tail inductionHypothesis =>
    have headOther : head ≠ separator :=
      fun same => free (same ▸ List.mem_cons_self)
    have tailFree : separator ∉ tail :=
      fun member => free (List.mem_cons_of_mem head member)
    simp [pieces, headOther, inductionHypothesis tailFree]

/-- A text is its pieces with the separator between them. -/
theorem intercalate_pieces (separator : Char) (text : List Char) :
    [separator].intercalate (pieces separator text) = text := by
  induction text with
  | nil => rfl
  | cons head tail inductionHypothesis =>
    obtain ⟨first, others, shape⟩ := List.exists_cons_of_ne_nil (pieces_ne_nil separator tail)
    rw [shape] at inductionHypothesis
    rw [pieces, shape]
    by_cases isSeparator : head = separator
    · rw [if_pos isSeparator, isSeparator]
      simpa [List.intercalate] using inductionHypothesis
    · rw [if_neg isSeparator]
      cases others with
      | nil => simpa [List.intercalate] using inductionHypothesis
      | cons second later => simpa [List.intercalate] using inductionHypothesis

theorem infix_intercalate
    {parts : List (List Char)} {part : List Char} (member : part ∈ parts)
    (separator : List Char) : part <:+: separator.intercalate parts := by
  induction parts with
  | nil => cases member
  | cons first others inductionHypothesis =>
    cases others with
    | nil =>
      refine ⟨[], [], ?_⟩
      rw [List.nil_append, List.append_nil, List.intercalate_singleton]
      exact List.mem_singleton.mp member
    | cons second later =>
      rw [List.intercalate_cons_cons]
      rcases List.mem_cons.mp member with rfl | inOthers
      · rw [List.append_assoc]
        exact (List.prefix_append part _).isInfix
      · exact (inductionHypothesis inOthers).trans (List.suffix_append _ _).isInfix

theorem infix_of_mem_pieces
    {separator : Char} {text piece : List Char} (member : piece ∈ pieces separator text) :
    piece <:+: text := by
  rw [← intercalate_pieces separator text]
  exact infix_intercalate member [separator]

theorem mem_intercalate
    {c : Char} {separator : List Char} {parts : List (List Char)}
    (member : c ∈ separator.intercalate parts) : c ∈ separator ∨ ∃ part ∈ parts, c ∈ part := by
  induction parts with
  | nil => cases member
  | cons first others inductionHypothesis =>
    cases others with
    | nil =>
      rw [List.intercalate_singleton] at member
      exact Or.inr ⟨first, List.mem_cons_self, member⟩
    | cons second later =>
      rw [List.intercalate_cons_cons, List.append_assoc, List.mem_append, List.mem_append] at member
      rcases member with inFirst | inSeparator | inOthers
      · exact Or.inr ⟨first, List.mem_cons_self, inFirst⟩
      · exact Or.inl inSeparator
      · rcases inductionHypothesis inOthers with inSeparator | ⟨part, isPart, inPart⟩
        · exact Or.inl inSeparator
        · exact Or.inr ⟨part, List.mem_cons_of_mem first isPart, inPart⟩

/-! ## Runs of the parts of a text -/

/-- The runs of joined parts are those of each part, where the separator ends every run. -/
theorem runs_intercalate
    {separator : Char} (stop : test separator = false) (parts : List (List Char)) :
    runs test ([separator].intercalate parts) = parts.flatMap (runs test) := by
  induction parts with
  | nil => simp
  | cons first others inductionHypothesis =>
    cases others with
    | nil => simp
    | cons second later =>
      have joined : [separator].intercalate (first :: second :: later) =
          first ++ separator :: [separator].intercalate (second :: later) := by
        simp [List.intercalate]
      rw [joined, runs_append_stop stop, inductionHypothesis]
      rfl

theorem runs_flatMap_pieces
    {separator : Char} (stop : test separator = false) (text : List Char) :
    (pieces separator text).flatMap (runs test) = runs test text := by
  rw [← runs_intercalate stop, intercalate_pieces]

theorem runs_append_of_stops
    {front rest : List Char} (stops : ∀ c, rest.head? = some c → test c = false) :
    runs test (front ++ rest) = runs test front ++ runs test rest := by
  cases rest with
  | nil => simp
  | cons c others =>
    have stop : test c = false := stops c rfl
    rw [runs_append_stop stop, runs_cons_stop stop]

/-- Characters that pass go on in the run that starts behind them. -/
theorem runs_append_pass
    {front : List Char} (passes : ∀ c ∈ front, test c = true) {head : Char}
    (pass : test head = true) (tail : List Char) :
    runs test (front ++ head :: tail) =
      (front ++ head :: tail.takeWhile test) :: runs test (tail.dropWhile test) := by
  cases front with
  | nil => exact runs_cons_pass pass tail
  | cons first others =>
    have othersPass : ∀ c ∈ others, test c = true :=
      fun c member => passes c (List.mem_cons_of_mem first member)
    rw [List.cons_append, runs_cons_pass (passes first List.mem_cons_self),
      List.takeWhile_append_of_pos othersPass, List.dropWhile_append_of_pos othersPass,
      List.takeWhile_cons_of_pos pass, List.dropWhile_cons_of_pos pass, List.cons_append]

/-- The runs of a text are those of its coarser runs. -/
theorem runs_flatMap_runs
    {coarse : Char → Bool} (text : List Char)
    (finer : ∀ c ∈ text, coarse c = false → test c = false) :
    (runs coarse text).flatMap (runs test) = runs test text := by
  fun_induction runs coarse text with
  | case1 text found =>
    have outside : ∀ c ∈ text, coarse c = false := by
      intro c member
      simpa using List.dropWhile_eq_nil_iff.mp found c member
    have none : runs test (text ++ []) = runs test [] :=
      runs_append_of_fail (fun c member => finer c member (outside c member)) []
    rw [List.append_nil, runs_nil] at none
    rw [none, List.flatMap_nil]
  | case2 text head tail found inductionHypothesis =>
    -- What stands in front of the first coarse run and what ends it are in no run at all.
    have whole : text = text.takeWhile (fun c => !coarse c) ++
        (head :: tail.takeWhile coarse ++ tail.dropWhile coarse) := by
      rw [List.cons_append, List.takeWhile_append_dropWhile, ← found,
        List.takeWhile_append_dropWhile]
    have outside : ∀ c ∈ text.takeWhile (fun c => !coarse c), test c = false := by
      intro c member
      refine finer c (List.takeWhile_subset _ member) ?_
      simpa using List.mem_takeWhile_imp member
    have inText : ∀ c ∈ tail.dropWhile coarse, c ∈ text := by
      intro c member
      rw [whole]
      exact List.mem_append_right _ (List.mem_append_right _ member)
    have ends : ∀ c, (tail.dropWhile coarse).head? = some c → test c = false := by
      intro c first
      refine finer c (inText c (List.mem_of_head? first)) ?_
      have stopped := List.head?_dropWhile_not coarse tail
      rw [first] at stopped
      simpa using stopped
    rw [List.flatMap_cons,
      inductionHypothesis fun c member => finer c (inText c member)]
    conv =>
      rhs
      rw [whole, runs_append_of_fail outside, runs_append_of_stops ends]

end ImportAudit.Text
