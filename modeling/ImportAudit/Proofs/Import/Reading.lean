import ImportAudit.Proofs.Import.Grammar
import ImportAudit.Proofs.Text.Splitting

/-!
# Reading written tokens

What the lexical functions and the clause reader do at the start of a written token: each is
passed over as a whole, and the reader goes on with the text after it.
-/

namespace ImportAudit.Import

open ImportAudit.Text (isWordStart isWordChar)
open ImportAudit.Import.Written

/-- Whether a word could not go on at the start of the text. -/
def Stops : List Char → Prop
  | [] => True
  | c :: _ => isWordChar c = false

/-- Whether the text starts with a token that is no word: neither a blank nor a comment is
skipped there. -/
def Solid : List Char → Prop
  | [] => False
  | c :: _ => c ≠ ' ' ∧ c ≠ '\t' ∧ c ≠ '\n' ∧ c ≠ '\r' ∧ c ≠ '/'

/-- No comment starts at the character in front of the rest. -/
def OpensNone (c : Char) (rest : List Char) : Prop :=
  c = '/' → ∀ tail, rest ≠ '/' :: tail ∧ rest ≠ '*' :: tail

theorem OpensNone.of_shapes
    {c : Char} {rest : List Char} (noLine : ∀ tail, c = '/' → rest = '/' :: tail → False)
    (noBlock : ∀ tail, c = '/' → rest = '*' :: tail → False) : OpensNone c rest :=
  fun slash tail => ⟨noLine tail slash, noBlock tail slash⟩

/-! ## Words -/

/-- Two characters of which only one passes a test are different. -/
theorem ne_of_test
    {test : Char → Bool} {c other : Char} (passes : test c = true)
    (fails : test other = false) : c ≠ other := by
  rintro rfl
  rw [fails] at passes
  cases passes

theorem isQuote_of_isWordStart
    {c : Char} (start : isWordStart c = true) : isQuote c = false := by
  simp [isQuote, ne_of_test start (by decide : isWordStart '\'' = false),
    ne_of_test start (by decide : isWordStart '"' = false),
    ne_of_test start (by decide : isWordStart '\x60' = false)]

theorem wordOf_append
    {word rest : List Char} (inWord : ∀ c ∈ word, isWordChar c = true) (stops : Stops rest) :
    wordOf (word ++ rest) = word := by
  have whole : word.takeWhile isWordChar = word :=
    List.takeWhile_eq_self_iff.mpr inWord
  cases rest with
  | nil => simpa [wordOf] using whole
  | cons c rest =>
    rw [wordOf, Text.takeWhile_append_stop stops]
    exact whole

theorem afterWord_append
    {word rest : List Char} (inWord : ∀ c ∈ word, isWordChar c = true) (stops : Stops rest) :
    afterWord (word ++ rest) = rest := by
  have none : word.dropWhile isWordChar = [] :=
    List.dropWhile_eq_nil_iff.mpr inWord
  cases rest with
  | nil => simpa [afterWord] using none
  | cons c rest =>
    rw [afterWord, Text.dropWhile_append_stop stops, none]
    rfl

theorem exists_start
    {word : List Char} (valid : isIdentifier word = true) :
    ∃ head tail, word = head :: tail ∧ isWordStart head = true := by
  cases word with
  | nil => cases valid
  | cons head tail =>
    rw [isIdentifier, Bool.and_eq_true] at valid
    exact ⟨head, tail, rfl, valid.1⟩

theorem identifier_ne_nil
    {word : List Char} (valid : isIdentifier word = true) : word ≠ [] := by
  obtain ⟨head, tail, rfl, _⟩ := exists_start valid
  exact List.cons_ne_nil head tail

theorem word_not_space_of_mem
    {word : List Char} (valid : isIdentifier word = true) :
    ∀ c ∈ word, isWordChar c = true ∧ Text.isSpace c = false := by
  cases word with
  | nil => cases valid
  | cons head tail =>
    rw [isIdentifier, Bool.and_eq_true] at valid
    intro c member
    simpa using List.all_eq_true.mp valid.2 c member

theorem wordOf_identifier
    {word rest : List Char} (valid : isIdentifier word = true) (stops : Stops rest) :
    wordOf (word ++ rest) = word :=
  wordOf_append (fun c member => (word_not_space_of_mem valid c member).1) stops

theorem afterWord_identifier
    {word rest : List Char} (valid : isIdentifier word = true) (stops : Stops rest) :
    afterWord (word ++ rest) = rest :=
  afterWord_append (fun c member => (word_not_space_of_mem valid c member).1) stops

/-! ## Comments and literals -/

theorem afterLine_append
    {body : List Char} (oneLine : '\n' ∉ body) (rest : List Char) :
    afterLine (body ++ '\n' :: rest) = rest := by
  induction body with
  | nil => simp [afterLine]
  | cons head tail inductionHypothesis =>
    have headOther : head ≠ '\n' :=
      fun same => oneLine (same ▸ List.mem_cons_self)
    have tailOneLine : '\n' ∉ tail :=
      fun member => oneLine (List.mem_cons_of_mem head member)
    simp [afterLine, headOther, inductionHypothesis tailOneLine]

theorem afterLine_of_oneLine
    {body : List Char} (oneLine : '\n' ∉ body) : afterLine body = [] := by
  induction body with
  | nil => rfl
  | cons head tail inductionHypothesis =>
    have headOther : head ≠ '\n' :=
      fun same => oneLine (same ▸ List.mem_cons_self)
    have tailOneLine : '\n' ∉ tail :=
      fun member => oneLine (List.mem_cons_of_mem head member)
    simp [afterLine, headOther, inductionHypothesis tailOneLine]

/-- A block comment ends where it is closed first: an asterisk at the end of its body does not
close it early, since another asterisk follows. -/
theorem afterBlock_append
    {body : List Char} (unclosed : Text.occurs ['*', '/'] body = false) (rest : List Char) :
    afterBlock (body ++ '*' :: '/' :: rest) = rest := by
  induction body with
  | nil => simp [afterBlock]
  | cons head tail inductionHypothesis =>
    rw [Text.occurs, Bool.or_eq_false_iff] at unclosed
    obtain ⟨notHere, tailUnclosed⟩ := unclosed
    have notClosing :
        ∀ after, head = '*' → tail ++ '*' :: '/' :: rest = '/' :: after → False := by
      intro after isStar isSlash
      cases tail with
      | nil => simp at isSlash
      | cons next others =>
        simp only [List.cons_append, List.cons.injEq] at isSlash
        simp [isStar, isSlash.1] at notHere
    rw [List.cons_append, afterBlock.eq_3 _ _ notClosing]
    exact inductionHypothesis tailUnclosed

/-- A literal of plain characters ends at its closing quote. -/
theorem afterLiteral_append
    {quote : Char} {body : List Char} (quoted : isQuote quote = true)
    (plain : ∀ c ∈ body, c ≠ '\\' ∧ c ≠ quote ∧ (c = '\n' → quote = '\x60'))
    (rest : List Char) :
    afterLiteral quote (body ++ quote :: rest) = rest := by
  induction body with
  | nil =>
    have notEscape : quote ≠ '\\' := ne_of_test quoted (by decide)
    rw [List.nil_append, afterLiteral.eq_4 _ _ _
      (fun _ _ escape => absurd escape notEscape) (fun escape => absurd escape notEscape),
      if_pos rfl]
  | cons head tail inductionHypothesis =>
    obtain ⟨notEscape, notQuote, onBreak⟩ := plain head List.mem_cons_self
    have goesOn : (decide (head = '\n') && quote != '\x60') = false := by
      by_cases isBreak : head = '\n'
      · simp [onBreak isBreak]
      · simp [isBreak]
    rw [List.cons_append, afterLiteral.eq_4 _ _ _
      (fun _ _ escape => absurd escape notEscape) (fun escape => absurd escape notEscape),
      if_neg notQuote, goesOn]
    exact inductionHypothesis fun c member => plain c (List.mem_cons_of_mem head member)

@[simp]
theorem Written.Literal.after_text (literal : Literal) (rest : List Char) :
    afterLiteral literal.quote (literal.body ++ literal.quote :: rest) = rest :=
  afterLiteral_append literal.quoted literal.plain rest

theorem afterStatement_append
    {value : List Char} (oneLine : ∀ c ∈ value, c ≠ ';' ∧ c ≠ '\n') (rest : List Char) :
    afterStatement (value ++ rest) = afterStatement rest := by
  induction value with
  | nil => rfl
  | cons head tail inductionHypothesis =>
    obtain ⟨notSemicolon, notBreak⟩ := oneLine head List.mem_cons_self
    rw [List.cons_append, afterStatement]
    simp only [notSemicolon, notBreak, decide_false, Bool.or_self, Bool.false_eq_true, if_false]
    exact inductionHypothesis fun c member => oneLine c (List.mem_cons_of_mem head member)

/-! ## Gaps -/

namespace Written

theorem Blank.exists_source_start (blank : Blank) :
    ∃ head tail, blank.source = head :: tail ∧ isWordChar head = false := by
  cases blank with
  | space => exact ⟨' ', [], rfl, by decide⟩
  | tab => exact ⟨'\t', [], rfl, by decide⟩
  | lineBreak => exact ⟨'\n', [], rfl, by decide⟩
  | lineComment body _ => exact ⟨'/', '/' :: (body ++ ['\n']), rfl, by decide⟩
  | blockComment body _ => exact ⟨'/', '*' :: (body ++ ['*', '/']), rfl, by decide⟩

@[simp]
theorem Gap.write_nil (blank : Blank → List Char) : Gap.write blank [] = [] :=
  rfl

@[simp]
theorem Gap.write_cons (blank : Blank → List Char) (first : Blank) (others : Gap) :
    Gap.write blank (first :: others) = blank first ++ Gap.write blank others :=
  rfl

end Written

theorem stops_gap
    (gap : Gap) {rest : List Char} (stops : Stops rest) :
    Stops (gap.write Blank.source ++ rest) := by
  cases gap with
  | nil => exact stops
  | cons first others =>
    obtain ⟨head, tail, shape, ends⟩ := first.exists_source_start
    simpa [shape, Stops] using ends

theorem stops_gap_of_ne_nil
    {gap : Gap} (apart : gap ≠ []) (rest : List Char) :
    Stops (gap.write Blank.source ++ rest) := by
  cases gap with
  | nil => exact absurd rfl apart
  | cons first others =>
    obtain ⟨head, tail, shape, ends⟩ := first.exists_source_start
    simpa [shape, Stops] using ends

theorem stops_separator (separator : Separator) (rest : List Char) :
    Stops (separator.write Blank.source ++ rest) :=
  stops_gap_of_ne_nil separator.apart rest

theorem skipBlanks_gap (gap : Gap) (rest : List Char) :
    skipBlanks (gap.write Blank.source ++ rest) = skipBlanks rest := by
  induction gap with
  | nil => rfl
  | cons first others inductionHypothesis =>
    cases first with
    | space => simpa [Blank.source, skipBlanks] using inductionHypothesis
    | tab => simpa [Blank.source, skipBlanks] using inductionHypothesis
    | lineBreak => simpa [Blank.source, skipBlanks] using inductionHypothesis
    | lineComment body oneLine =>
      simpa [Blank.source, skipBlanks, afterLine_append oneLine] using inductionHypothesis
    | blockComment body unclosed =>
      simpa [Blank.source, skipBlanks, afterBlock_append unclosed] using inductionHypothesis

theorem skipBlanks_cons {c : Char} {rest : List Char} (plain : OpensNone c rest) :
    skipBlanks (c :: rest) =
      if c = ' ' || c = '\t' || c = '\n' || c = '\r' then skipBlanks rest else c :: rest := by
  rw [skipBlanks.eq_3 _ _ (fun tail slash shape => (plain slash tail).1 shape)
    (fun tail slash shape => (plain slash tail).2 shape)]

theorem skipBlanks_solid
    {text : List Char} (solid : Solid text) : skipBlanks text = text := by
  cases text with
  | nil => exact absurd solid id
  | cons head tail =>
    obtain ⟨notSpace, notTab, notBreak, notReturn, notSlash⟩ := solid
    rw [skipBlanks_cons fun slash => absurd slash notSlash]
    simp [notSpace, notTab, notBreak, notReturn]

end ImportAudit.Import
