import ImportAudit.Proofs.Import.StatementScan
import ImportAudit.Proofs.ReportedNames
import ImportAudit.Proofs.Text.Runs

/-!
# The shape of specifiers

Whatever the source, however malformed, a specifier is trimmed and not empty, it stays on one line,
and none of the marks that group and separate specifiers is left in it. A specifier of the statement
scan consists of words with one space between any two, so that the specifiers can be split again
when they are joined by commas.
-/

namespace ImportAudit.Import

open ImportAudit.Text (isWordStart isWordChar isSpace Trimmed)

/-- What every specifier is like. -/
structure Shaped (specifier : List Char) : Prop where
  trimmed : Trimmed specifier
  unmarked : ∀ mark ∈ [',', '{', '}', '\n', '\r'], mark ∉ specifier

/-- A specifier that consists of words, one space between any two. -/
def Worded (specifier : List Char) : Prop :=
  ∃ words, words ≠ [] ∧ (∀ word ∈ words, IsWord word) ∧ specifier = [' '].intercalate words

/-! ## Specifiers by line -/

theorem dropBraces_unbraced
    {c : Char} {text : List Char} (member : c ∈ dropBraces text) : isBrace c = false := by
  simpa using (List.mem_filter.mp member).2

/-- What an import line names is free of braces and of the word that ends it, and stands on the
line. -/
theorem lineClause_free (line : List Char) :
    (∀ c ∈ lineClause line, isBrace c = false ∧ c ∈ line) ∧
      ¬ "from".toList <:+: lineClause line := by
  refine ⟨fun c member => ?_, Text.not_infix_before (by decide) _⟩
  have kept : c ∈ dropBraces (Text.removeAll "import ".toList line) :=
    (Text.prefix_before _ _).subset member
  exact ⟨dropBraces_unbraced kept, Text.removeAll_subset _ _ (List.mem_filter.mp kept).1⟩

/-- A specifier of an import line is shaped, and `from` occurs in none. -/
theorem shaped_of_mem_lineSpecifiers
    {line specifier : List Char} (feedFree : '\n' ∉ line) (returnFree : '\r' ∉ line)
    (member : specifier ∈ lineSpecifiers line) :
    Shaped specifier ∧ ¬ "from".toList <:+: specifier := by
  obtain ⟨isTrimmed, some⟩ := List.mem_filter.mp member
  obtain ⟨piece, isPiece, rfl⟩ := List.mem_map.mp isTrimmed
  have nonempty : Text.trimChars piece ≠ [] := by simpa using some
  have within : Text.trimChars piece <:+: lineClause line :=
    (Text.infix_trimChars piece).trans (Text.infix_of_mem_pieces isPiece)
  obtain ⟨free, wordFree⟩ := lineClause_free line
  refine ⟨⟨Text.trimmed_trimChars nonempty, ?_⟩, fun present => wordFree (present.trans within)⟩
  intro mark isMark present
  obtain ⟨unbraced, inLine⟩ := free mark (within.subset present)
  simp only [List.mem_cons, List.not_mem_nil, or_false] at isMark
  rcases isMark with rfl | rfl | rfl | rfl | rfl
  · exact (Text.mem_of_mem_pieces isPiece).1 ((Text.infix_trimChars piece).subset present)
  · exact absurd unbraced (by decide)
  · exact absurd unbraced (by decide)
  · exact feedFree inLine
  · exact returnFree inLine

theorem shaped_of_mem_scanLines
    {source specifier : List Char} (member : specifier ∈ scanLines source) :
    Shaped specifier ∧ ¬ "from".toList <:+: specifier := by
  obtain ⟨line, isImport, inLine⟩ := List.mem_flatMap.mp member
  have isLine : line ∈ Source.lines source :=
    List.takeWhile_subset _ (List.mem_filter.mp isImport).1
  obtain ⟨feedFree, returnFree⟩ := Source.breakFree_of_mem_lines isLine
  exact shaped_of_mem_lineSpecifiers feedFree returnFree inLine

/-! ## Words -/

theorem isWord_trimmed {word : List Char} (isWord : IsWord word) : Trimmed word := by
  constructor
  · obtain ⟨head, tail, shape⟩ := List.exists_cons_of_ne_nil isWord.nonempty
    exact ⟨head, tail, shape, (isWord.solid head (shape ▸ List.mem_cons_self)).1⟩
  · have last := List.dropLast_concat_getLast isWord.nonempty
    exact ⟨word.dropLast, word.getLast isWord.nonempty, last.symm,
      (isWord.solid _ (List.getLast_mem isWord.nonempty)).1⟩

theorem trimmed_append
    {front back : List Char} (trimmedFront : Trimmed front) (trimmedBack : Trimmed back)
    (middle : List Char) : Trimmed (front ++ middle ++ back) := by
  obtain ⟨head, tail, starts, headSolid⟩ := trimmedFront.starts
  obtain ⟨initial, last, ends, lastSolid⟩ := trimmedBack.ends
  refine ⟨⟨head, tail ++ middle ++ back, ?_, headSolid⟩,
    ⟨front ++ middle ++ initial, last, ?_, lastSolid⟩⟩
  · rw [starts]
    rfl
  · rw [ends, List.append_assoc, List.append_assoc, List.append_assoc]

theorem trimmed_words
    {words : List (List Char)} (some : words ≠ []) (areWords : ∀ word ∈ words, IsWord word) :
    Trimmed ([' '].intercalate words) := by
  induction words with
  | nil => exact absurd rfl some
  | cons first others inductionHypothesis =>
    obtain ⟨isFirst, areOthers⟩ := List.forall_mem_cons.mp areWords
    cases others with
    | nil =>
      rw [List.intercalate_singleton]
      exact isWord_trimmed isFirst
    | cons second later =>
      rw [List.intercalate_cons_cons]
      exact trimmed_append (isWord_trimmed isFirst)
        (inductionHypothesis (List.cons_ne_nil second later) areOthers) [' ']

theorem Worded.shaped {specifier : List Char} (worded : Worded specifier) : Shaped specifier := by
  obtain ⟨words, some, areWords, rfl⟩ := worded
  refine ⟨trimmed_words some areWords, fun mark isMark present => ?_⟩
  rcases Text.mem_intercalate present with isBlank | ⟨word, isWord, inWord⟩
  · rw [List.mem_singleton.mp isBlank] at isMark
    exact absurd isMark (by decide)
  · obtain ⟨notSpace, unbraced, notComma⟩ := (areWords word isWord).solid mark inWord
    simp only [List.mem_cons, List.not_mem_nil, or_false] at isMark
    rcases isMark with rfl | rfl | rfl | rfl | rfl
    · exact notComma rfl
    · exact absurd unbraced (by decide)
    · exact absurd unbraced (by decide)
    · exact absurd notSpace (by decide)
    · exact absurd notSpace (by decide)

/-! ## Splitting and joining -/

/-- Words with one space between any two are read back. -/
theorem pieceWords_intercalate
    {words : List (List Char)} (areWords : ∀ word ∈ words, IsWord word) :
    pieceWords ([' '].intercalate words) = words := by
  induction words with
  | nil => exact pieceWords_of_vacant fun _ member => absurd member List.not_mem_nil
  | cons first others inductionHypothesis =>
    obtain ⟨isFirst, areOthers⟩ := List.forall_mem_cons.mp areWords
    cases others with
    | nil =>
      rw [List.intercalate_singleton, pieceWords, isFirst.dropBraces_eq]
      exact isFirst.runs_eq
    | cons second later =>
      have rest := inductionHypothesis areOthers
      rw [pieceWords, Text.wordsOf] at rest
      rw [List.intercalate_cons_cons, List.append_assoc, List.singleton_append, pieceWords,
        dropBraces_append, dropBraces_cons_other (by decide), isFirst.dropBraces_eq, Text.wordsOf,
        Text.runs_append_stop (by decide), isFirst.runs_eq, rest]
      rfl

theorem Worded.clauseSpecifiers_eq
    {specifier : List Char} (worded : Worded specifier) :
    clauseSpecifiers specifier = [specifier] := by
  have commaFree : ',' ∉ specifier := worded.shaped.unmarked ',' (by decide)
  obtain ⟨words, some, areWords, rfl⟩ := worded
  have read := pieceWords_intercalate areWords
  rw [clauseSpecifiers_of_words commaFree (by rwa [read]), read]

/-- Specifiers of words are split again where commas join them. -/
theorem clauseSpecifiers_intercalate
    {specifiers : List (List Char)} (worded : ∀ specifier ∈ specifiers, Worded specifier) :
    clauseSpecifiers ([','].intercalate specifiers) = specifiers := by
  induction specifiers with
  | nil => exact clauseSpecifiers_nil
  | cons first others inductionHypothesis =>
    obtain ⟨firstWorded, othersWorded⟩ := List.forall_mem_cons.mp worded
    cases others with
    | nil =>
      rw [List.intercalate_singleton]
      exact firstWorded.clauseSpecifiers_eq
    | cons second later =>
      rw [List.intercalate_cons_cons, List.append_assoc, List.singleton_append,
        clauseSpecifiers_append_comma, firstWorded.clauseSpecifiers_eq,
        inductionHypothesis othersWorded]
      rfl

/-! ## Specifiers by statement -/

/-- The splitter brings any text into the shape, also one that no clause has. -/
theorem worded_of_mem_clauseSpecifiers
    {clause specifier : List Char} (member : specifier ∈ clauseSpecifiers clause) :
    Worded specifier := by
  obtain ⟨isJoined, some⟩ := List.mem_filter.mp member
  obtain ⟨piece, isPiece, rfl⟩ := List.mem_map.mp isJoined
  refine ⟨Text.wordsOf piece, ?_, fun word isWord => ?_, rfl⟩
  · intro none
    rw [none] at some
    cases some
  · have layout := Text.layout_runs (fun c => !isSpace c) piece
    obtain ⟨nonempty, passes⟩ := layout.pass_of_mem isWord
    refine ⟨nonempty, fun c inWord => ⟨?_, ?_, ?_⟩⟩
    · simpa using passes c inWord
    all_goals
      have inPiece : c ∈ piece := by
        have kept : c ∈ (Text.wordsOf piece).flatten := List.mem_flatten_of_mem isWord inWord
        rw [Text.wordsOf, layout.flatten_eq] at kept
        exact (List.mem_filter.mp kept).1
      obtain ⟨commaFree, within⟩ := Text.mem_of_mem_pieces isPiece
    · exact dropBraces_unbraced (within c inPiece)
    · rintro rfl
      exact commaFree inPiece

/-- The walk takes its specifiers from clauses, whatever it steps over in between. -/
theorem worded_of_mem_walk
    {glued : Bool} {text specifier : List Char} (member : specifier ∈ walk glued text) :
    Worded specifier := by
  fun_induction walk glued text with
  | case1 => cases member
  | case2 glued rest inductionHypothesis => exact inductionHypothesis member
  | case3 glued rest inductionHypothesis => exact inductionHypothesis member
  | case4 glued head rest _ _ _ inductionHypothesis => exact inductionHypothesis member
  | case5 glued head rest _ _ _ _ _ inductionHypothesis =>
    rcases List.mem_append.mp member with here | later
    · exact worded_of_mem_clauseSpecifiers here
    · exact inductionHypothesis later
  | case6 glued head rest _ _ _ _ _ inductionHypothesis => exact inductionHypothesis member
  | case7 glued head rest _ _ _ _ inductionHypothesis => exact inductionHypothesis member

/-! ## Both scans -/

theorem exists_of_mem_importNames
    {mode : ParseMode} {source name : String} (member : name ∈ importNames mode source) :
    name.toList ∈ scanLines source.toList ∨ name.toList ∈ scanStatements source.toList := by
  obtain ⟨specifier, found, rfl⟩ := List.mem_map.mp member
  rw [String.toList_ofList]
  cases mode with
  | line => exact Or.inl found
  | statement => exact Or.inr found
  | unrecognised label => exact Or.inl found

/-- In every parse mode the specifiers of any source are trimmed and not empty, and hold no comma,
brace or line break. By line none of them holds `from`. By statement they consist of words with one
space between any two, and they are read again where they are joined by commas. -/
theorem importNames_shaped (source : String) :
    (∀ mode, ∀ name ∈ importNames mode source, Shaped name.toList) ∧
      (∀ name ∈ importNames .line source, ¬ "from".toList <:+: name.toList) ∧
      (∀ name ∈ importNames .statement source, Worded name.toList) ∧
      (clauseSpecifiers (String.intercalate "," (importNames .statement source)).toList).map
        String.ofList = importNames .statement source := by
  have worded : ∀ specifier ∈ scanStatements source.toList, Worded specifier :=
    fun specifier member => worded_of_mem_walk member
  refine ⟨fun mode name member => ?_, fun name member => ?_, fun name member => ?_, ?_⟩
  · rcases exists_of_mem_importNames member with byLine | byStatement
    · exact (shaped_of_mem_scanLines byLine).1
    · exact (worded _ byStatement).shaped
  · obtain ⟨specifier, found, rfl⟩ := List.mem_map.mp member
    have chars : (String.ofList specifier).toList = specifier := String.toList_ofList
    rw [chars]
    exact (shaped_of_mem_scanLines found).2
  · obtain ⟨specifier, found, rfl⟩ := List.mem_map.mp member
    rw [String.toList_ofList]
    exact worded specifier found
  · have chars : (String.intercalate "," (importNames .statement source)).toList =
        [','].intercalate (scanStatements source.toList) := by
      rw [String.toList_intercalate, importNames, List.map_map]
      congr 1
      exact List.map_id'' (fun _ => String.toList_ofList) _
    rw [chars, clauseSpecifiers_intercalate worded]
    rfl

/-- A clause that nothing ends: a quote stands inside its braces, a name behind them, and what looks
like two spaces is part of a word for the scan. -/
def unclosedSource : String :=
  "import \x7bA\u00a0\u2003b,\n'x\x7dC"

theorem importNames_shaped_unclosed :
    importNames .line unclosedSource = ["A\u00a0\u2003b"] ∧
      importNames .statement unclosedSource = ["A b", "'xC"] ∧
      Shaped "A\u00a0\u2003b".toList ∧ ¬ "from".toList <:+: "A\u00a0\u2003b".toList ∧
      Worded "A b".toList ∧
      (clauseSpecifiers "A b,'xC".toList).map String.ofList = ["A b", "'xC"] := by
  have byLine : importNames .line unclosedSource = ["A\u00a0\u2003b"] := by
    decide +kernel
  have byStatement : importNames .statement unclosedSource = ["A b", "'xC"] := by
    cbv
  have joined : String.intercalate "," ["A b", "'xC"] = "A b,'xC" := by
    decide
  obtain ⟨shaped, wordFree, worded, split⟩ := importNames_shaped unclosedSource
  have first := shaped .line "A\u00a0\u2003b"
  rw [byLine] at first wordFree
  rw [byStatement, joined] at split
  rw [byStatement] at worded
  exact ⟨byLine, byStatement, first List.mem_cons_self, wordFree _ List.mem_cons_self,
    worded _ List.mem_cons_self, split⟩

end ImportAudit.Import
