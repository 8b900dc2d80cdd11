import ImportAudit.Proofs.Import.Places.Walk
import ImportAudit.Proofs.Source.Breaks
import ImportAudit.Proofs.Text.Octets

/-!
# The scan of a source as bytes

Every byte of a character outside ASCII is one that stands in words and has no other meaning, as
the character does. So a scan over the bytes of a source stops where the scan over its characters
stops, and reads the bytes of the same clauses.
-/

namespace ImportAudit.Import

open ImportAudit.Text

variable {c : Char} {rest : List Char}

/-! ## Lexical elements -/

theorem OpensNone.encoded (plain : OpensNone c rest) : OpensNone c (encoded rest) := by
  intro slash tail
  constructor
  · intro whole
    obtain ⟨others, shape, _⟩ := exists_of_encoded_eq_cons (by decide) whole
    exact (plain slash others).1 shape
  · intro whole
    obtain ⟨others, shape, _⟩ := exists_of_encoded_eq_cons (by decide) whole
    exact (plain slash others).2 shape

theorem afterLine_encoded (text : List Char) :
    afterLine (encoded text) = encoded (afterLine text) := by
  have passes (c : Char) (rest : List Char) (beyond : IsBeyond c) :
      afterLine (c :: rest) = afterLine rest := by
    rw [afterLine, if_neg (ne_of_beyond beyond (by decide))]
  induction text with
  | nil => rfl
  | cons c rest inductionHypothesis =>
    by_cases beyond : IsBeyond c
    · rw [scan_encoded_cons passes beyond, passes c rest beyond, inductionHypothesis]
    · rw [encoded_cons_ascii beyond, afterLine, afterLine]
      split_ifs
      · rfl
      · exact inductionHypothesis

theorem afterBlock_cons
    (unclosed : c = '*' → ∀ tail, rest ≠ '/' :: tail) : afterBlock (c :: rest) = afterBlock rest :=
  afterBlock.eq_3 c rest fun tail star shape => unclosed star tail shape

theorem afterBlock_encoded (text : List Char) :
    afterBlock (encoded text) = encoded (afterBlock text) := by
  have passes (c : Char) (rest : List Char) (beyond : IsBeyond c) :
      afterBlock (c :: rest) = afterBlock rest :=
    afterBlock_cons fun star => absurd star (ne_of_beyond beyond (by decide))
  fun_induction afterBlock text with
  | case1 => rfl
  | case2 rest =>
    rw [encoded_cons_ascii (by decide), encoded_cons_ascii (by decide), afterBlock]
  | case3 c rest unclosed inductionHypothesis =>
    by_cases beyond : IsBeyond c
    · rw [scan_encoded_cons passes beyond, inductionHypothesis]
    · rw [encoded_cons_ascii beyond, afterBlock_cons, inductionHypothesis]
      intro star tail whole
      obtain ⟨others, shape, _⟩ := exists_of_encoded_eq_cons (by decide) whole
      exact unclosed others star shape

theorem not_backslash
    (inner : ∀ skipped tail, c = '\\' → rest = skipped :: tail → False)
    (last : c = '\\' → rest = [] → False) : c ≠ '\\' := by
  intro backslash
  cases rest with
  | nil => exact last backslash rfl
  | cons skipped tail => exact inner skipped tail backslash rfl

/-- A literal ends at the same character in bytes, since its signs are ASCII. -/
theorem afterLiteral_encoded
    {quote : Char} (ascii : ¬ IsBeyond quote) (text : List Char) :
    afterLiteral quote (encoded text) = encoded (afterLiteral quote text) := by
  have passes (c : Char) (rest : List Char) (beyond : IsBeyond c) :
      afterLiteral quote (c :: rest) = afterLiteral quote rest := by
    have notBreak : c ≠ '\n' := ne_of_beyond beyond (by decide)
    have notBackslash : c ≠ '\\' := ne_of_beyond beyond (by decide)
    rw [afterLiteral_cons quote notBackslash, if_neg (ne_of_beyond beyond ascii), if_neg]
    simp [notBreak]
  fun_induction afterLiteral quote text with
  | case1 => rfl
  | case2 skipped rest inductionHypothesis =>
    rw [encoded_cons_ascii (by decide), afterLiteral_backslash, ← inductionHypothesis]
    by_cases beyond : IsBeyond skipped
    · -- The backslash protects the first byte only, and the other ones need no protection.
      rw [encoded_cons, List.drop_append_of_le_length
        (List.length_pos_iff.mpr (encoded_singleton_ne_nil skipped))]
      exact scan_beyond passes
        (fun _ member => beyond_of_mem_encoded beyond (List.mem_of_mem_drop member)) _
    · rw [encoded_cons_ascii beyond, List.drop_one, List.tail_cons]
  | case3 => rfl
  | case4 rest inner last =>
    rw [encoded_cons_ascii ascii, afterLiteral_cons quote (not_backslash inner last), if_pos rfl]
  | case5 c rest inner last other lineBreak =>
    have isBreak : c = '\n' := by simpa using (Bool.and_eq_true_iff.mp lineBreak).1
    have breakAscii : ¬ IsBeyond c := isBreak ▸ by decide
    rw [encoded_cons_ascii breakAscii, afterLiteral_cons quote (not_backslash inner last),
      if_neg other, if_pos lineBreak]
  | case6 c rest inner last other noBreak inductionHypothesis =>
    by_cases beyond : IsBeyond c
    · rw [scan_encoded_cons passes beyond, inductionHypothesis]
    · rw [encoded_cons_ascii beyond, afterLiteral_cons quote (not_backslash inner last),
        if_neg other, if_neg noBreak, inductionHypothesis]

theorem afterStatement_encoded (text : List Char) :
    afterStatement (encoded text) = encoded (afterStatement text) := by
  have passes (c : Char) (rest : List Char) (beyond : IsBeyond c) :
      afterStatement (c :: rest) = afterStatement rest := by
    have notSemicolon : c ≠ ';' := ne_of_beyond beyond (by decide)
    have notBreak : c ≠ '\n' := ne_of_beyond beyond (by decide)
    rw [afterStatement, if_neg]
    simp [notSemicolon, notBreak]
  induction text with
  | nil => rfl
  | cons c rest inductionHypothesis =>
    by_cases beyond : IsBeyond c
    · rw [scan_encoded_cons passes beyond, passes c rest beyond, inductionHypothesis]
    · rw [encoded_cons_ascii beyond, afterStatement, afterStatement]
      split_ifs
      · rfl
      · exact inductionHypothesis

theorem beyond_not_blank (c : Char) (beyond : IsBeyond c) : (c == ' ' || c == '\t') = false := by
  have notSpace : c ≠ ' ' := ne_of_beyond beyond (by decide)
  have notTab : c ≠ '\t' := ne_of_beyond beyond (by decide)
  simp [notSpace, notTab]

theorem skipTerminator_encoded (text : List Char) :
    skipTerminator (encoded text) = encoded (skipTerminator text) := by
  unfold skipTerminator
  rw [dropWhile_encoded beyond_not_blank]
  split
  · rename_i tail found
    obtain ⟨others, shape, same⟩ := exists_of_encoded_eq_cons (by decide) found
    rw [shape]
    exact same.symm
  · rename_i other
    split
    · rename_i tail found
      exact absurd (encoded_cons_ascii (by decide) tail) (found ▸ other (encoded tail))
    · rfl

@[simp]
theorem wordOf_encoded (text : List Char) : wordOf (encoded text) = encoded (wordOf text) :=
  takeWhile_encoded (fun _ => isWordChar_of_beyond) text

@[simp]
theorem afterWord_encoded (text : List Char) :
    afterWord (encoded text) = encoded (afterWord text) :=
  dropWhile_encoded (fun _ => isWordChar_of_beyond) text

/-- The bytes of a character outside ASCII start with a byte of a word. -/
theorem exists_encoded_eq_cons (start : isWordStart c = true) (rest : List Char) :
    ∃ first tail, encoded (c :: rest) = first :: tail ∧ isWordStart first = true := by
  by_cases beyond : IsBeyond c
  · obtain ⟨first, others, shape⟩ := List.exists_cons_of_ne_nil (encoded_singleton_ne_nil c)
    have firstBeyond := beyond_of_mem_encoded beyond (shape ▸ List.mem_cons_self)
    refine ⟨first, others ++ encoded rest, ?_, isWordStart_of_beyond firstBeyond⟩
    rw [encoded_cons, shape, List.cons_append]
  · exact ⟨c, encoded rest, encoded_cons_ascii beyond rest, start⟩

/-- Blanks and comments are skipped alike in bytes. -/
theorem skipBlanks_encoded (text : List Char) :
    skipBlanks (encoded text) = encoded (skipBlanks text) := by
  fun_induction skipBlanks text with
  | case1 rest inductionHypothesis =>
    rw [encoded_cons_ascii (by decide), encoded_cons_ascii (by decide), skipBlanks,
      afterLine_encoded, inductionHypothesis]
  | case2 rest inductionHypothesis =>
    rw [encoded_cons_ascii (by decide), encoded_cons_ascii (by decide), skipBlanks,
      afterBlock_encoded, inductionHypothesis]
  | case3 c rest noLine noBlock blank inductionHypothesis =>
    have plain : OpensNone c rest := .of_shapes noLine noBlock
    have ascii : ¬ IsBeyond c := by
      have cases : ((c = ' ' ∨ c = '\t') ∨ c = '\n') ∨ c = '\r' := by simpa using blank
      rcases cases with ((rfl | rfl) | rfl) | rfl <;> decide
    rw [encoded_cons_ascii ascii, skipBlanks_cons plain.encoded, if_pos blank,
      inductionHypothesis]
  | case4 c rest noLine noBlock notBlank =>
    have plain : OpensNone c rest := .of_shapes noLine noBlock
    by_cases beyond : IsBeyond c
    · obtain ⟨first, tail, shape, start⟩ :=
        exists_encoded_eq_cons (isWordStart_of_beyond beyond) rest
      rw [shape]
      exact skipBlanks_solid ⟨ne_of_test start (by decide), ne_of_test start (by decide),
        ne_of_test start (by decide), ne_of_test start (by decide), ne_of_test start (by decide)⟩
    · rw [encoded_cons_ascii beyond, skipBlanks_cons plain.encoded, if_neg notBlank]
  | case5 => rw [encoded_nil, skipBlanks]

theorem not_beyond_of_noStart (noStart : isWordStart c = false) : ¬ IsBeyond c := by
  intro beyond
  rw [isWordStart_of_beyond beyond] at noStart
  cases noStart

theorem not_beyond_of_quote (quoted : isQuote c = true) : ¬ IsBeyond c := by
  refine not_beyond_of_noStart (eq_false_of_ne_true fun start => ?_)
  rw [isQuote_of_isWordStart start] at quoted
  cases quoted

theorem skipModule_encoded (text : List Char) :
    skipModule (encoded text) = encoded (skipModule text) := by
  unfold skipModule
  rw [skipBlanks_encoded]
  cases skipBlanks text with
  | nil => rfl
  | cons c rest =>
    by_cases start : isWordStart c = true
    · obtain ⟨first, tail, shape, firstStart⟩ := exists_encoded_eq_cons start rest
      have terminator := skipTerminator_encoded (c :: rest)
      rw [shape] at terminator ⊢
      simp [isQuote_of_isWordStart start, isQuote_of_isWordStart firstStart, terminator]
    · have ascii := not_beyond_of_noStart (eq_false_of_ne_true start)
      have terminator := skipTerminator_encoded (c :: rest)
      rw [encoded_cons_ascii ascii] at terminator ⊢
      by_cases quoted : isQuote c = true
      · simp [quoted, afterLiteral_encoded ascii, skipTerminator_encoded]
      · simp [quoted, terminator]

/-! ## Clauses -/

/-- The bytes of a clause, and of what is left behind it. -/
def Clause.encoded (clause : Clause) : Clause :=
  ⟨Text.encoded clause.text, Text.encoded clause.rest⟩

@[simp]
theorem Clause.prepend_encoded (front : List Char) (clause : Clause) :
    (clause.prepend front).encoded = clause.encoded.prepend (Text.encoded front) := by
  simp [Clause.prepend, Clause.encoded]

theorem encoded_eq_ascii_iff
    {word : List Char} (ascii : encoded word = word) (text : List Char) :
    encoded text = word ↔ text = word :=
  ⟨fun same => encoded_injective (same.trans ascii.symm), fun same => same ▸ ascii⟩

theorem readClause_encoded_wordStart
    (start : isWordStart c = true) (depth : Nat) (rest : List Char) :
    readClause depth (encoded (c :: rest)) =
      if depth = 0 && wordOf (c :: rest) = "from".toList then
        ⟨[], encoded (skipModule (afterWord (c :: rest)))⟩
      else
        (readClause depth (encoded (afterWord (c :: rest)))).prepend
          (encoded (wordOf (c :: rest))) := by
  obtain ⟨first, tail, shape, firstStart⟩ := exists_encoded_eq_cons start rest
  have isFrom := encoded_eq_ascii_iff (by decide : encoded "from".toList = "from".toList)
    (wordOf (c :: rest))
  rw [shape, readClause_wordStart firstStart, ← shape, wordOf_encoded, afterWord_encoded,
    skipModule_encoded, decide_eq_decide.mpr isFrom]

/-- A clause is read alike in bytes: whatever cuts it is ASCII, and whatever is not is part of a
word in both readings. -/
theorem readClause_encoded (depth : Nat) (text : List Char) :
    readClause depth (encoded text) = (readClause depth text).encoded := by
  fun_induction readClause depth text with
  | case1 => simp [readClause, Clause.encoded]
  | case2 depth rest inductionHypothesis =>
    rw [encoded_cons_ascii (by decide), encoded_cons_ascii (by decide), readClause,
      afterLine_encoded, inductionHypothesis, Clause.prepend_encoded,
      encoded_singleton (by decide)]
  | case3 depth rest inductionHypothesis =>
    rw [encoded_cons_ascii (by decide), encoded_cons_ascii (by decide), readClause,
      afterBlock_encoded, inductionHypothesis, Clause.prepend_encoded,
      encoded_singleton (by decide)]
  | case4 depth rest noLine noBlock inductionHypothesis =>
    rw [encoded_cons_ascii (by decide), readClause_opening, inductionHypothesis,
      Clause.prepend_encoded, encoded_singleton (by decide)]
  | case5 depth rest noLine noBlock _ inductionHypothesis =>
    rw [encoded_cons_ascii (by decide), readClause_closing, inductionHypothesis,
      Clause.prepend_encoded, encoded_singleton (by decide)]
  | case6 depth c rest noLine noBlock opening closing semicolon =>
    have isSemicolon : c = ';' := by simpa using (Bool.and_eq_true_iff.mp semicolon).2
    have plain : OpensNone c rest := .of_shapes noLine noBlock
    rw [encoded_cons_ascii (isSemicolon ▸ by decide), readClause_plain plain.encoded,
      if_neg opening, if_neg closing, if_pos semicolon]
    rfl
  | case7 depth c rest noLine noBlock opening closing semicolon equals =>
    have isEquals : c = '=' := by simpa using (Bool.and_eq_true_iff.mp equals).2
    have plain : OpensNone c rest := .of_shapes noLine noBlock
    rw [encoded_cons_ascii (isEquals ▸ by decide), readClause_plain plain.encoded,
      if_neg opening, if_neg closing, if_neg semicolon, if_pos equals, afterStatement_encoded]
    rfl
  | case8 depth c rest noLine noBlock opening closing semicolon equals quoted =>
    have ascii := not_beyond_of_quote (Bool.and_eq_true_iff.mp quoted).2
    have plain : OpensNone c rest := .of_shapes noLine noBlock
    rw [encoded_cons_ascii ascii, readClause_plain plain.encoded, if_neg opening, if_neg closing,
      if_neg semicolon, if_neg equals, if_pos quoted, afterLiteral_encoded ascii,
      skipTerminator_encoded]
    rfl
  | case9 depth c rest _ _ _ _ _ _ _ start isFrom =>
    rw [readClause_encoded_wordStart start, if_pos isFrom]
    rfl
  | case10 depth c rest _ _ _ _ _ _ _ start isFrom inductionHypothesis =>
    rw [readClause_encoded_wordStart start, if_neg isFrom, inductionHypothesis,
      Clause.prepend_encoded]
  | case11 depth c rest noLine noBlock opening closing semicolon equals quoted noStart
      inductionHypothesis =>
    have ascii := not_beyond_of_noStart (eq_false_of_ne_true noStart)
    have plain : OpensNone c rest := .of_shapes noLine noBlock
    rw [encoded_cons_ascii ascii, readClause_plain plain.encoded, if_neg opening, if_neg closing,
      if_neg semicolon, if_neg equals, if_neg quoted, if_neg noStart, inductionHypothesis,
      Clause.prepend_encoded, encoded_singleton ascii]

/-- What follows the word `import` is read alike in bytes. -/
theorem readImport_encoded (text : List Char) :
    readImport (encoded text) = (readImport text).encoded := by
  unfold readImport
  rw [skipBlanks_encoded]
  cases skipBlanks text with
  | nil => rfl
  | cons c rest =>
    have clause := readClause_encoded 0 (c :: rest)
    by_cases start : isWordStart c = true
    · obtain ⟨first, tail, shape, firstStart⟩ := exists_encoded_eq_cons start rest
      have noSign {c : Char} (start : isWordStart c = true) : c ≠ '(' ∧ c ≠ '.' ∧ c ≠ ':' :=
        ⟨ne_of_test start (by decide), ne_of_test start (by decide),
          ne_of_test start (by decide)⟩
      rw [shape] at clause ⊢
      simp [noSign start, noSign firstStart, isQuote_of_isWordStart start,
        isQuote_of_isWordStart firstStart, clause]
    · have ascii := not_beyond_of_noStart (eq_false_of_ne_true start)
      rw [encoded_cons_ascii ascii] at clause ⊢
      dsimp only
      split_ifs with sign quoted
      · simp [Clause.encoded, encoded_cons_ascii ascii]
      · simp [Clause.encoded, afterLiteral_encoded ascii]
      · exact clause

theorem clausesOf_wordStart (start : isWordStart c = true) (glued : Bool) (rest : List Char) :
    clausesOf glued (c :: rest) =
      if wordOf (c :: rest) = "import".toList && !glued then
        (readImport (afterWord (c :: rest))).text ::
          clausesOf false (readImport (afterWord (c :: rest))).rest
      else clausesOf false (afterWord (c :: rest)) := by
  have notSlash : c ≠ '/' := ne_of_test start (by decide)
  rw [clausesOf_plain fun slash => absurd slash notSlash]
  simp [start, isQuote_of_isWordStart start]

theorem clausesOf_encoded_wordStart
    (start : isWordStart c = true) (glued : Bool) (rest : List Char) :
    clausesOf glued (encoded (c :: rest)) =
      if wordOf (c :: rest) = "import".toList && !glued then
        encoded (readImport (afterWord (c :: rest))).text ::
          clausesOf false (encoded (readImport (afterWord (c :: rest))).rest)
      else clausesOf false (encoded (afterWord (c :: rest))) := by
  obtain ⟨first, tail, shape, firstStart⟩ := exists_encoded_eq_cons start rest
  have isImport := encoded_eq_ascii_iff (by decide : encoded "import".toList = "import".toList)
    (wordOf (c :: rest))
  rw [shape, clausesOf_wordStart firstStart, ← shape, wordOf_encoded, afterWord_encoded,
    readImport_encoded, decide_eq_decide.mpr isImport]
  rfl

/-- The walk reads the same clauses in bytes. -/
theorem clausesOf_encoded (glued : Bool) (text : List Char) :
    clausesOf glued (encoded text) = (clausesOf glued text).map encoded := by
  fun_induction clausesOf glued text with
  | case1 => simp [clausesOf]
  | case2 glued rest inductionHypothesis =>
    rw [encoded_cons_ascii (by decide), encoded_cons_ascii (by decide), clausesOf,
      afterLine_encoded, inductionHypothesis]
  | case3 glued rest inductionHypothesis =>
    rw [encoded_cons_ascii (by decide), encoded_cons_ascii (by decide), clausesOf,
      afterBlock_encoded, inductionHypothesis]
  | case4 glued c rest noLine noBlock quoted inductionHypothesis =>
    have ascii := not_beyond_of_quote quoted
    have plain : OpensNone c rest := .of_shapes noLine noBlock
    rw [encoded_cons_ascii ascii, clausesOf_plain plain.encoded, if_pos quoted,
      afterLiteral_encoded ascii, inductionHypothesis]
  | case5 glued c rest _ _ _ start keyword inductionHypothesis =>
    rw [clausesOf_encoded_wordStart start, if_pos keyword, inductionHypothesis, List.map_cons]
  | case6 glued c rest _ _ _ start other inductionHypothesis =>
    rw [clausesOf_encoded_wordStart start, if_neg other, inductionHypothesis]
  | case7 glued c rest noLine noBlock unquoted noStart inductionHypothesis =>
    have ascii := not_beyond_of_noStart (eq_false_of_ne_true noStart)
    have plain : OpensNone c rest := .of_shapes noLine noBlock
    rw [encoded_cons_ascii ascii, clausesOf_plain plain.encoded, if_neg unquoted,
      if_neg noStart]
    exact inductionHypothesis

theorem unifyBreaks_append_beyond
    {front : List Char} (beyond : ∀ c ∈ front, IsBeyond c) (rest : List Char) :
    Source.unifyBreaks (front ++ rest) = front ++ Source.unifyBreaks rest := by
  induction front with
  | nil => rfl
  | cons c others inductionHypothesis =>
    obtain ⟨first, later⟩ := List.forall_mem_cons.mp beyond
    rw [List.cons_append, Source.unifyBreaks_other (ne_of_beyond first (by decide)),
      inductionHypothesis later, List.cons_append]

theorem unifyBreaks_encoded (text : List Char) :
    Source.unifyBreaks (encoded text) = encoded (Source.unifyBreaks text) := by
  fun_induction Source.unifyBreaks text with
  | case1 => rfl
  | case2 rest inductionHypothesis =>
    rw [encoded_cons_ascii (by decide), encoded_cons_ascii (by decide), Source.unifyBreaks,
      inductionHypothesis, encoded_cons_ascii (by decide)]
  | case3 rest unpaired inductionHypothesis =>
    have apart : (encoded rest).head? ≠ some '\n' := by
      intro first
      obtain ⟨tail, whole⟩ := List.head?_eq_some_iff.mp first
      obtain ⟨others, shape, _⟩ := exists_of_encoded_eq_cons (by decide) whole
      exact unpaired others shape
    rw [encoded_cons_ascii (by decide), Source.unifyBreaks_return apart, inductionHypothesis,
      encoded_cons_ascii (by decide)]
  | case4 c rest _ notReturn inductionHypothesis =>
    by_cases beyond : IsBeyond c
    · rw [encoded_cons, unifyBreaks_append_beyond fun _ => beyond_of_mem_encoded beyond,
        inductionHypothesis, ← encoded_cons]
    · rw [encoded_cons_ascii beyond, Source.unifyBreaks_other notReturn, inductionHypothesis,
        encoded_cons_ascii beyond]

end ImportAudit.Import
