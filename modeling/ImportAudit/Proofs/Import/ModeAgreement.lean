import ImportAudit.Proofs.Import.Header

/-!
# Sources on which both scans agree

Where `import` occurs only in a header, the line scan and the statement scan find the same: the
specifiers of the header. What follows the header may be any text at all. Whatever the walk steps
over there, it goes on with a later part of the same text, so it never meets the word.
-/

namespace ImportAudit.Import

open ImportAudit.Text

/-! ## Each step leaves a later part of the text -/

theorem afterLine_suffix (text : List Char) : afterLine text <:+ text := by
  induction text with
  | nil => exact List.suffix_refl []
  | cons head tail inductionHypothesis =>
    rw [afterLine]
    by_cases lineBreak : head = '\n'
    · rw [if_pos lineBreak]
      exact List.suffix_cons head tail
    · rw [if_neg lineBreak]
      exact inductionHypothesis.trans (List.suffix_cons head tail)

theorem afterBlock_suffix (text : List Char) : afterBlock text <:+ text := by
  fun_induction afterBlock text with
  | case1 => exact List.suffix_refl []
  | case2 rest => exact ⟨['*', '/'], rfl⟩
  | case3 head rest _ inductionHypothesis =>
    exact inductionHypothesis.trans (List.suffix_cons head rest)

theorem afterLiteral_suffix (quote : Char) (text : List Char) :
    afterLiteral quote text <:+ text := by
  fun_induction afterLiteral quote text with
  | case1 => exact List.suffix_refl []
  | case2 skipped rest inductionHypothesis =>
    exact inductionHypothesis.trans ⟨['\\', skipped], rfl⟩
  | case3 => exact List.nil_suffix
  | case4 rest _ _ => exact List.suffix_cons _ rest
  | case5 head rest _ _ _ _ => exact List.suffix_refl _
  | case6 head rest _ _ _ _ inductionHypothesis =>
    exact inductionHypothesis.trans (List.suffix_cons head rest)

theorem afterWord_suffix (text : List Char) : afterWord text <:+ text :=
  List.dropWhile_suffix isWordChar

/-! ## Texts without the word -/

/-- The word `import` does not occur in the text, not even inside another word. -/
def ImportFree (text : List Char) : Prop :=
  ¬ "import".toList <:+: text

theorem ImportFree.suffix
    {text rest : List Char} (free : ImportFree text) (later : rest <:+ text) : ImportFree rest :=
  fun present => free (present.trans later.isInfix)

/-- Where the word does not occur, the walk finds nothing, whatever is left open in the text. -/
theorem walk_of_importFree
    {text : List Char} (free : ImportFree text) (glued : Bool) : walk glued text = [] := by
  fun_induction walk glued text with
  | case1 => rfl
  | case2 glued rest inductionHypothesis =>
    refine inductionHypothesis (free.suffix ?_)
    exact (afterLine_suffix rest).trans ⟨['/', '/'], rfl⟩
  | case3 glued rest inductionHypothesis =>
    refine inductionHypothesis (free.suffix ?_)
    exact (afterBlock_suffix rest).trans ⟨['/', '*'], rfl⟩
  | case4 glued head rest _ _ _ inductionHypothesis =>
    refine inductionHypothesis (free.suffix ?_)
    exact (afterLiteral_suffix head rest).trans (List.suffix_cons head rest)
  | case5 glued head rest _ _ _ _ isImport =>
    -- The word at this place would be an occurrence.
    have word : wordOf (head :: rest) = "import".toList :=
      of_decide_eq_true (Bool.and_eq_true_iff.mp isImport).1
    have starts : wordOf (head :: rest) <+: head :: rest := List.takeWhile_prefix isWordChar
    exact absurd (word ▸ starts.isInfix) free
  | case6 glued head rest _ _ _ _ _ inductionHypothesis =>
    exact inductionHypothesis (free.suffix (afterWord_suffix _))
  | case7 glued head rest _ _ _ _ inductionHypothesis =>
    exact inductionHypothesis (free.suffix (List.suffix_cons head rest))

/-- The word does not reach over a line break. -/
theorem importFree_intercalate
    {lines : List (List Char)} (free : ∀ line ∈ lines, ImportFree line) :
    ImportFree (['\n'].intercalate lines) := by
  induction lines with
  | nil => exact (by decide : ¬ "import".toList <:+: [])
  | cons first others inductionHypothesis =>
    obtain ⟨firstFree, othersFree⟩ := List.forall_mem_cons.mp free
    cases others with
    | nil => simpa [List.intercalate] using firstFree
    | cons second later =>
      have joined : ['\n'].intercalate (first :: second :: later) =
          first ++ '\n' :: ['\n'].intercalate (second :: later) := by
        simp [List.intercalate]
      rw [joined]
      intro present
      rcases infix_of_append_cons (by decide) present with inFirst | inOthers
      · exact firstFree inFirst
      · exact inductionHypothesis othersFree inOthers

theorem filter_headerLines_of_importFree
    {lines : List (List Char)} (free : ∀ line ∈ lines, ImportFree line) :
    (headerLines lines).filter ("import".toList.isPrefixOf ·) = [] := by
  refine List.filter_eq_nil_iff.mpr fun line inHeader starts => ?_
  have member : line ∈ lines := List.takeWhile_subset _ inHeader
  exact free line member (List.isPrefixOf_iff_prefix.mp starts).isInfix

/-! ## Agreement -/

/-- A source whose first lines are a header and whose other lines do not mention `import` gives
the specifiers of the header, in both parse modes. -/
theorem importNames_line_eq_statement
    {statements : List Header.Statement} {body : List (List Char)} {source : String}
    (lines : Source.lines source.toList = statements.map (·.text) ++ body)
    (free : ∀ line ∈ body, ImportFree line) :
    importNames .line source = importNames .statement source ∧
      importNames .line source =
        (statements.flatMap (·.clause.specifiers)).map String.ofList := by
  have byLine : scanLines source.toList = statements.flatMap (·.clause.specifiers) := by
    rw [Header.scanLines_of_lines lines, filter_headerLines_of_importFree free,
      List.flatMap_nil, List.append_nil]
  have byStatement : scanStatements source.toList = statements.flatMap (·.clause.specifiers) := by
    rw [Header.scanStatements_of_lines lines, walk_of_importFree (importFree_intercalate free),
      List.append_nil]
  constructor
  · simp only [importNames, byLine, byStatement]
  · simp only [importNames, byLine]

def quotedHeader : Header.Statement where
  clause := .both ⟨"A".toList, by decide⟩
    (.listed ⟨⟨"B".toList, by decide⟩, some ⟨"C".toList, by decide⟩⟩ [])
  quote := '"'
  origin := "it's".toList
  terminated := true
  quoted := Or.inr rfl
  plain := by simp

/-- A header and two lines in which a literal and a comment are left open. -/
def openSource : String :=
  "import A, { B as C } from \"it's\";\r\nconst open = 'no end\r/* from `here"

theorem importNames_agree_openSource :
    importNames .line openSource = importNames .statement openSource ∧
      importNames .line openSource = ["A", "B as C"] := by
  have lines : Source.lines openSource.toList =
      [quotedHeader].map (·.text) ++ ["const open = 'no end".toList, "/* from `here".toList] := by
    decide +kernel
  have free : ∀ line ∈ ["const open = 'no end".toList, "/* from `here".toList],
      ImportFree line := by
    refine List.forall_mem_cons.mpr ⟨not_infix_of_occurs (by decide), ?_⟩
    exact List.forall_mem_singleton.mpr (not_infix_of_occurs (by decide))
  obtain ⟨agree, named⟩ := importNames_line_eq_statement lines free
  exact ⟨agree, named.trans (by decide)⟩

end ImportAudit.Import
