import ImportAudit.Proofs.Text.Occurrence
import ImportAudit.Proofs.Text.Runs
import ImportAudit.Usage

/-!
# The three ways of matching

A name that stands in a specifier as a word of its own is used in every mode, and in every mode a
name that is used occurs in the specifier.
-/

namespace ImportAudit.Usage

open ImportAudit.Text

/-- The name stands in the text with no identifier character on either side. -/
def StandsIn (name text : List Char) : Prop :=
  ∃ before after, text = before ++ name ++ after ∧
    (∀ c, before.getLast? = some c → isWordChar c = false) ∧ endsWord after = true

theorem infix_of_standsIn
    {name text : List Char} (stands : StandsIn name text) : name <:+: text := by
  obtain ⟨before, after, rfl, _, _⟩ := stands
  exact ⟨before, after, rfl⟩

theorem endsWord_iff {text : List Char} :
    endsWord text = true ↔ ∀ c, text.head? = some c → isWordChar c = false := by
  cases text with
  | nil => simp [endsWord]
  | cons c rest => simp [endsWord]

theorem mem_identifiers_of_standsIn
    {name text : List Char} (nonempty : name ≠ []) (word : ∀ c ∈ name, isWordChar c = true)
    (stands : StandsIn name text) : name ∈ identifiers text := by
  obtain ⟨before, after, rfl, detached, ends⟩ := stands
  have here : name ∈ runs isWordChar (name ++ after) := by
    rw [runs_append_of_pass nonempty word (endsWord_iff.mp ends)]
    exact List.mem_cons_self
  rcases List.eq_nil_or_concat before with rfl | ⟨front, c, rfl⟩
  · simpa [identifiers] using here
  · have stop : isWordChar c = false := detached c (by simp)
    have split : front ++ [c] ++ name ++ after = front ++ c :: (name ++ after) := by simp
    rw [identifiers, List.concat_eq_append, split, runs_append_stop stop]
    exact List.mem_append_right _ here

/-- The search finds an occurrence with no identifier character on either side. -/
theorem occursAsWord_of_standsIn
    {name before after : List Char} (nonempty : name ≠ [])
    (detached : ∀ c, before.getLast? = some c → isWordChar c = false)
    (ends : endsWord after = true) (attached : Bool) (start : before = [] → attached = false) :
    occursAsWord name attached (before ++ (name ++ after)) = true := by
  induction before generalizing attached with
  | nil =>
    obtain ⟨head, tail, rfl⟩ := List.exists_cons_of_ne_nil nonempty
    have starts : (head :: tail).isPrefixOf (head :: (tail ++ after)) = true :=
      List.isPrefixOf_iff_prefix.mpr (List.prefix_append (head :: tail) after)
    simp [occursAsWord, start rfl, starts, ends]
  | cons c rest inductionHypothesis =>
    have laterDetached : ∀ d, rest.getLast? = some d → isWordChar d = false := by
      intro d last
      refine detached d ?_
      cases rest with
      | nil => cases last
      | cons next others => simpa using last
    have laterStart : rest = [] → isWordChar c = false := by
      rintro rfl
      exact detached c rfl
    have later := inductionHypothesis laterDetached (isWordChar c) laterStart
    rw [List.cons_append, occursAsWord, later, Bool.or_true]

theorem standsIn_append
    {name front rest : List Char} (nonempty : name ≠ []) (word : ∀ c ∈ name, isWordChar c = true)
    (apart : endsWord rest = true) (stands : StandsIn name rest) :
    StandsIn name (front ++ rest) := by
  obtain ⟨before, after, rfl, detached, ends⟩ := stands
  refine ⟨front ++ before, after, by simp, ?_, ends⟩
  -- The name cannot start the rest: an identifier character would stand there.
  cases before with
  | nil =>
    obtain ⟨head, tail, rfl⟩ := List.exists_cons_of_ne_nil nonempty
    simp [endsWord, word head List.mem_cons_self] at apart
  | cons c others =>
    rw [List.getLast?_append_of_ne_nil _ (List.cons_ne_nil c others)]
    exact detached

theorem standsIn_of_mem_layout
    {name text : List Char} {parts : List (List Char)} (layout : Layout isWordChar text parts)
    (member : name ∈ parts) : StandsIn name text := by
  obtain ⟨nonempty, word⟩ := layout.pass_of_mem member
  induction layout with
  | gap fails => cases member
  | @run gap run rest others fails _ _ ends later inductionHypothesis =>
    have apart : endsWord rest = true := endsWord_iff.mpr ends
    rcases List.mem_cons.mp member with rfl | inRest
    · refine ⟨gap, rest, by rw [List.append_assoc], ?_, apart⟩
      intro c last
      exact fails c (List.mem_of_getLast? last)
    · rw [← List.append_assoc]
      exact standsIn_append nonempty word apart (inductionHypothesis inRest)

theorem standsIn_of_mem_identifiers
    {name text : List Char} (member : name ∈ identifiers text) :
    name ≠ [] ∧ (∀ c ∈ name, isWordChar c = true) ∧ StandsIn name text := by
  have layout : Layout isWordChar text (identifiers text) := layout_runs isWordChar text
  obtain ⟨nonempty, word⟩ := layout.pass_of_mem member
  exact ⟨nonempty, word, standsIn_of_mem_layout layout member⟩

/-- What the search finds stands apart on both sides. -/
theorem standsIn_of_occursAsWord
    {name text : List Char} {attached : Bool} (found : occursAsWord name attached text = true) :
    ∃ before after, text = before ++ name ++ after ∧
      (∀ c, before.getLast? = some c → isWordChar c = false) ∧
        (before = [] → attached = false) ∧ endsWord after = true := by
  induction text generalizing attached with
  | nil => simp [occursAsWord] at found
  | cons c rest inductionHypothesis =>
    rw [occursAsWord, Bool.or_eq_true] at found
    rcases found with here | later
    · simp only [Bool.and_eq_true, Bool.not_eq_true'] at here
      obtain ⟨⟨start, starts⟩, ends⟩ := here
      obtain ⟨after, whole⟩ := List.isPrefixOf_iff_prefix.mp starts
      rw [← whole, List.drop_left] at ends
      exact ⟨[], after, whole.symm, by simp, fun _ => start, ends⟩
    · obtain ⟨before, after, rfl, detached, start, ends⟩ := inductionHypothesis later
      refine ⟨c :: before, after, by simp, ?_, by simp, ends⟩
      cases before with
      | nil => simpa using start rfl
      | cons d others => simpa using detached

theorem occursAsWord_iff {name text : List Char} (nonempty : name ≠ []) :
    occursAsWord name false text = true ↔ StandsIn name text := by
  constructor
  · intro found
    obtain ⟨before, after, whole, detached, _, ends⟩ := standsIn_of_occursAsWord found
    exact ⟨before, after, whole, detached, ends⟩
  · rintro ⟨before, after, rfl, detached, ends⟩
    rw [List.append_assoc]
    exact occursAsWord_of_standsIn nonempty detached ends false (fun _ => rfl)

/-! ## The specification of each mode -/

theorem toList_ne_nil {name : String} : name.toList ≠ [] ↔ name ≠ "" := by
  rw [ne_eq, ne_eq, ← String.toList_inj]
  rfl

theorem matches_substring_iff {specifier name : String} :
    matches? .substring specifier name = true ↔ name.toList <:+: specifier.toList :=
  occurs_iff

theorem matches_word_iff {specifier name : String} :
    matches? .word specifier name = true ↔
      name ≠ "" ∧ StandsIn name.toList specifier.toList := by
  simp only [matches?, Bool.and_eq_true, bne_iff_ne]
  refine and_congr_right fun nonempty => ?_
  exact occursAsWord_iff (toList_ne_nil.mpr nonempty)

theorem matches_exact_iff {specifier name : String} :
    matches? .exact specifier name = true ↔
      name ≠ "" ∧ (∀ c ∈ name.toList, isWordChar c = true) ∧
        StandsIn name.toList specifier.toList := by
  rw [matches?, List.contains_iff_mem, ← toList_ne_nil]
  constructor
  · exact standsIn_of_mem_identifiers
  · rintro ⟨nonempty, word, stands⟩
    exact mem_identifiers_of_standsIn nonempty word stands

/-- A name that stands in a specifier is used in every mode. -/
theorem matches_of_standsIn
    {specifier name : String} (nonempty : name ≠ "")
    (word : ∀ c ∈ name.toList, isWordChar c = true)
    (stands : StandsIn name.toList specifier.toList) (mode : MatchMode) :
    matches? mode specifier name = true := by
  cases mode with
  | substring => exact matches_substring_iff.mpr (infix_of_standsIn stands)
  | exact => exact matches_exact_iff.mpr ⟨nonempty, word, stands⟩
  | word => exact matches_word_iff.mpr ⟨nonempty, stands⟩

/-- A name that is used in any mode occurs in the specifier. -/
theorem contains_of_matches
    {mode : MatchMode} {specifier name : String} (used : matches? mode specifier name = true) :
    Text.contains specifier name = true := by
  rw [Text.contains, occurs_iff]
  cases mode with
  | substring => exact matches_substring_iff.mp used
  | exact => exact infix_of_standsIn (matches_exact_iff.mp used).2.2
  | word => exact infix_of_standsIn (matches_word_iff.mp used).2

/-! ## Identifiers as maximal runs -/

/-- The identifiers of a specifier are its maximal runs of identifier characters: all of them, in
the order in which they stand there, with another character between any two. So they are what is
left when the other characters are deleted, and a name is used exactly where it is one of the
runs. -/
theorem identifiers_maximalRuns (specifier : String) :
    (∃ spans : List Span,
      identifiers specifier.toList = spans.map (·.cut specifier.toList) ∧
        (∀ span, span ∈ spans ↔ span.IsRun isWordChar specifier.toList) ∧
        spans.Pairwise (Span.Apart isWordChar specifier.toList)) ∧
    (∀ word ∈ identifiers specifier.toList, word ≠ [] ∧ ∀ c ∈ word, isWordChar c = true) ∧
    (identifiers specifier.toList).flatten = specifier.toList.filter isWordChar ∧
    ∀ name : String, matches? .exact specifier name = true ↔
      ∃ span : Span, span.IsRun isWordChar specifier.toList ∧
        span.cut specifier.toList = name.toList := by
  have layout : Layout isWordChar specifier.toList (identifiers specifier.toList) :=
    layout_runs isWordChar specifier.toList
  refine ⟨runs_spans isWordChar specifier.toList, fun word member => layout.pass_of_mem member,
    layout.flatten_eq, fun name => ?_⟩
  rw [matches?, List.contains_iff_mem]
  exact mem_runs_iff

theorem identifiers_maximalRuns_namespaceImport :
    matches? .exact "* as é_1, $x" "é_1" = true ∧
      ("é_1".toList ≠ [] ∧ ∀ c ∈ "é_1".toList, isWordChar c = true) ∧
        (identifiers "* as é_1, $x".toList).flatten = "asé_1$x".toList := by
  obtain ⟨_, words, deleted, used⟩ := identifiers_maximalRuns "* as é_1, $x"
  have isRun : Span.IsRun isWordChar "* as é_1, $x".toList ⟨5, 8⟩ := by
    refine Span.isRun_iff.mpr ⟨by decide, fun place notBefore inside => ?_,
      fun place touches => ?_, by decide⟩
    · obtain rfl | rfl | rfl : place = 5 ∨ place = 6 ∨ place = 7 := by
        simp only at notBefore inside
        omega
      all_goals decide
    · obtain rfl : place = 4 := Nat.succ.inj touches
      decide
  have exact : matches? .exact "* as é_1, $x" "é_1" = true :=
    (used "é_1").mpr ⟨⟨5, 8⟩, isRun, by decide⟩
  refine ⟨exact, words _ (List.contains_iff_mem.mp exact), deleted.trans (by decide)⟩

end ImportAudit.Usage
