import ImportAudit.Extraction
import ImportAudit.Proofs.Import.ClauseReading
import ImportAudit.Proofs.Import.Specifiers
import ImportAudit.Proofs.Source.Breaks

/-!
# The statement scan of a written source

The walk over a source passes every written item as a whole, and collects the specifiers of its
statements. So the scan of a source gives the specifiers of its import statements, in order and
nothing else, whatever stands in comments and literals and however the statements are laid out.
-/

namespace ImportAudit.Import

open ImportAudit.Text (isWordStart isWordChar isSpace)
open ImportAudit.Import.Written

/-! ## The walk over one token -/

/-- Outside comments the walk looks at one character, one literal or one word at a time. -/
theorem walk_cons
    {c : Char} (notSlash : c ≠ '/') (glued : Bool) (rest : List Char) :
    walk glued (c :: rest) =
      if isQuote c then walk false (afterLiteral c rest)
      else if isWordStart c then
        if wordOf (c :: rest) = "import".toList && !glued then
          clauseSpecifiers (readImport (afterWord (c :: rest))).text ++
            walk false (readImport (afterWord (c :: rest))).rest
        else walk false (afterWord (c :: rest))
      else walk (isWordChar c || c == '.') rest := by
  rw [walk.eq_4 _ _ _ (fun _ slash => absurd slash notSlash)
    (fun _ slash => absurd slash notSlash)]
  rfl

/-- A sign is passed over. A slash may be followed by anything that does not make it the start of
a comment. -/
theorem walk_sign
    {c : Char} (sign : isSign c = true) (glued : Bool) {rest : List Char}
    (noComment : OpensNone c rest) :
    walk glued (c :: rest) = walk (isWordChar c || c == '.') rest := by
  have noQuote : isQuote c = false := by
    simpa using (Bool.and_eq_true_iff.mp sign).1
  have noStart : isWordStart c = false := by
    simpa using (Bool.and_eq_true_iff.mp sign).2
  rw [walk.eq_4 _ _ _ (fun tail slash shape => (noComment slash tail).1 shape)
    (fun tail slash shape => (noComment slash tail).2 shape)]
  simp [noQuote, noStart]

theorem walk_mark
    {c : Char} (sign : isSign c = true) (notSlash : c ≠ '/') (glued : Bool) (rest : List Char) :
    walk glued (c :: rest) = walk (isWordChar c || c == '.') rest :=
  walk_sign sign glued fun slash => absurd slash notSlash

theorem walk_blank (blank : Blank) (glued : Bool) (rest : List Char) :
    walk glued (blank.source ++ rest) = walk false rest := by
  cases blank with
  | space =>
    rw [Blank.source, List.singleton_append, walk_mark (by decide) (by decide)]
    rfl
  | tab =>
    rw [Blank.source, List.singleton_append, walk_mark (by decide) (by decide)]
    rfl
  | lineBreak =>
    rw [Blank.source, List.singleton_append, walk_mark (by decide) (by decide)]
    rfl
  | lineComment body oneLine =>
    simp [Blank.source, walk, afterLine_append oneLine]
  | blockComment body unclosed =>
    simp [Blank.source, walk, afterBlock_append unclosed]

theorem walk_gap (gap : Gap) (rest : List Char) :
    walk false (gap.write Blank.source ++ rest) = walk false rest := by
  induction gap with
  | nil => rfl
  | cons first others inductionHypothesis =>
    rw [Gap.write_cons, List.append_assoc, walk_blank, inductionHypothesis]

@[simp]
theorem walk_literal (literal : Literal) (glued : Bool) (rest : List Char) :
    walk glued (literal.text ++ rest) = walk false rest := by
  have notSlash : literal.quote ≠ '/' := ne_of_test literal.quoted (by decide)
  rw [Literal.text, List.cons_append, List.cons_append, List.append_assoc,
    List.singleton_append, walk_cons notSlash, if_pos literal.quoted, literal.after_text]

theorem walk_identifier
    {word rest : List Char} (valid : isIdentifier word = true) (stops : Stops rest)
    (glued : Bool) (other : word ≠ "import".toList ∨ glued = true) :
    walk glued (word ++ rest) = walk false rest := by
  have whole := wordOf_identifier valid stops
  have after := afterWord_identifier valid stops
  obtain ⟨head, tail, rfl, start⟩ := exists_start valid
  have notQuote := isQuote_of_isWordStart start
  rw [List.cons_append] at whole after ⊢
  rw [walk_cons (ne_of_test start (by decide)), whole, after]
  rcases other with notImport | isGlued
  · simp only [notQuote, start, notImport, decide_false, Bool.false_and, Bool.false_eq_true,
      if_false, if_true]
  · simp [notQuote, start, isGlued]

theorem walk_import {rest : List Char} (stops : Stops rest) :
    walk false ("import".toList ++ rest) =
      clauseSpecifiers (readImport rest).text ++ walk false (readImport rest).rest := by
  have valid : isIdentifier "import".toList = true := by decide
  have whole := wordOf_identifier valid stops
  have after := afterWord_identifier valid stops
  have cut : "import".toList ++ rest = 'i' :: ("mport".toList ++ rest) := rfl
  rw [cut] at whole after ⊢
  rw [walk_cons (by decide), whole, after]
  rfl

/-- A terminator that the reader consumed would have been passed over as well. -/
theorem walk_skipTerminator (text : List Char) :
    walk false (skipTerminator text) = walk false text := by
  have blanks : ∀ front : List Char, (∀ c ∈ front, (c == ' ' || c == '\t') = true) →
      ∀ rest, walk false (front ++ rest) = walk false rest := by
    intro front blank rest
    induction front with
    | nil => rfl
    | cons head tail inductionHypothesis =>
      have headBlank : head = ' ' ∨ head = '\t' := by
        simpa using blank head List.mem_cons_self
      have step : walk false (head :: (tail ++ rest)) = walk false (tail ++ rest) := by
        rcases headBlank with rfl | rfl
        · exact walk_blank .space false (tail ++ rest)
        · exact walk_blank .tab false (tail ++ rest)
      rw [List.cons_append, step]
      exact inductionHypothesis fun c member => blank c (List.mem_cons_of_mem head member)
  -- What is dropped in front of the semicolon are the blanks that the text starts with.
  unfold skipTerminator
  split
  · rename_i rest found
    have shape := List.takeWhile_append_dropWhile
      (p := fun c => c == ' ' || c == '\t') (l := text)
    rw [found] at shape
    have blank : ∀ c ∈ text.takeWhile (fun c => c == ' ' || c == '\t'),
        (c == ' ' || c == '\t') = true :=
      fun c member => by simpa using List.mem_takeWhile_imp member
    rw [← shape, blanks _ blank, walk_mark (by decide) (by decide)]
    rfl
  · rfl

/-! ## What follows the word `import` -/

/-- Whether a character starts a clause: a word does, a star or a brace. -/
def startsClause (c : Char) : Bool :=
  isWordStart c || c == '*' || c == '{'

/-- A text whose first character can start a clause. -/
def StartsClause : List Char → Prop
  | [] => False
  | c :: _ => startsClause c = true

theorem startsClause_identifier
    {word : List Char} (valid : isIdentifier word = true) (rest : List Char) :
    StartsClause (word ++ rest) := by
  obtain ⟨head, tail, rfl, start⟩ := exists_start valid
  simp [StartsClause, startsClause, start]

theorem startsClause_group (group : Group) (rest : List Char) :
    StartsClause (group.write Blank.source ++ rest) := by
  cases group with
  | whole afterStar afterAs name => exact (by decide : startsClause '*' = true)
  | listed afterOpening first others afterLast trailing =>
    exact (by decide : startsClause '{' = true)

theorem startsClause_writeClause (statement : ModuleImport) (rest : List Char) :
    StartsClause (statement.writeClause Blank.source ++ rest) := by
  simp only [ModuleImport.writeClause, List.append_assoc]
  cases statement.typed with
  | some gap =>
    rw [writeMark, List.append_assoc]
    exact startsClause_identifier (by decide) _
  | none =>
    rw [writeMark, List.nil_append]
    cases statement.bindings with
    | single name => exact startsClause_identifier name.valid _
    | grouped group => exact startsClause_group group _
    | both name beforeComma afterComma group =>
      simp only [Bindings.write, List.append_assoc]
      exact startsClause_identifier name.valid _

theorem readImport_clause
    (gap : Gap) {text : List Char} (starts : StartsClause text) :
    readImport (gap.write Blank.source ++ text) = readClause 0 text := by
  cases text with
  | nil => exact absurd starts id
  | cons head tail =>
    have solid : Solid (head :: tail) :=
      ⟨ne_of_test starts (by decide), ne_of_test starts (by decide),
        ne_of_test starts (by decide), ne_of_test starts (by decide),
        ne_of_test starts (by decide)⟩
    have unquoted : head ≠ '\'' ∧ head ≠ '"' ∧ head ≠ '\x60' :=
      ⟨ne_of_test starts (by decide), ne_of_test starts (by decide),
        ne_of_test starts (by decide)⟩
    have named : head ≠ '(' ∧ head ≠ '.' ∧ head ≠ ':' :=
      ⟨ne_of_test starts (by decide), ne_of_test starts (by decide),
        ne_of_test starts (by decide)⟩
    simp [readImport, skipBlanks_gap, skipBlanks_solid solid, isQuote, unquoted, named]

theorem readImport_sign
    (gap : Gap) {c : Char} (naming : c = '(' ∨ c = '.' ∨ c = ':') (rest : List Char) :
    readImport (gap.write Blank.source ++ c :: rest) = ⟨[], c :: rest⟩ := by
  have solid : Solid (c :: rest) := by
    rcases naming with rfl | rfl | rfl <;> refine ⟨?_, ?_, ?_, ?_, ?_⟩ <;> decide
  rw [readImport, skipBlanks_gap, skipBlanks_solid solid]
  rcases naming with rfl | rfl | rfl <;> rfl

theorem solid_literal (literal : Literal) (rest : List Char) :
    Solid (literal.text ++ rest) :=
  ⟨ne_of_test literal.quoted (by decide), ne_of_test literal.quoted (by decide),
    ne_of_test literal.quoted (by decide), ne_of_test literal.quoted (by decide),
    ne_of_test literal.quoted (by decide)⟩

theorem readImport_literal (gap : Gap) (literal : Literal) (rest : List Char) :
    readImport (gap.write Blank.source ++ (literal.text ++ rest)) = ⟨[], rest⟩ := by
  have named : literal.quote ≠ '(' ∧ literal.quote ≠ '.' ∧ literal.quote ≠ ':' :=
    ⟨ne_of_test literal.quoted (by decide), ne_of_test literal.quoted (by decide),
      ne_of_test literal.quoted (by decide)⟩
  rw [readImport, skipBlanks_gap, skipBlanks_solid (solid_literal literal rest)]
  simp [Literal.text, literal.quoted, literal.after_text, named]

@[simp]
theorem skipModule_literal (gap : Gap) (literal : Literal) (rest : List Char) :
    skipModule (gap.write Blank.source ++ (literal.text ++ rest)) = skipTerminator rest := by
  rw [skipModule, skipBlanks_gap, skipBlanks_solid (solid_literal literal rest)]
  simp [Literal.text, literal.quoted, literal.after_text]

theorem stops_literal (literal : Literal) (rest : List Char) :
    Stops (literal.text ++ rest) := by
  have quoted := literal.quoted
  rcases (by simpa [isQuote, or_assoc] using quoted :
      literal.quote = '\'' ∨ literal.quote = '"' ∨ literal.quote = '\x60') with
    same | same | same <;>
    · change isWordChar literal.quote = false
      rw [same]
      decide

theorem walk_terminator (terminator : Option Gap) (rest : List Char) :
    walk false (terminatorText terminator ++ rest) = walk false rest := by
  cases terminator with
  | none => rfl
  | some gap =>
    rw [terminatorText, List.append_assoc, walk_gap, List.singleton_append,
      walk_mark (by decide) (by decide)]
    rfl

@[simp]
theorem clauseSpecifiers_nil : clauseSpecifiers [] = [] :=
  clauseSpecifiers_of_no_words List.not_mem_nil
    (pieceWords_of_vacant fun _ member => absurd member List.not_mem_nil)

/-! ## Items -/

/-- Bindings that do not start with a name do not go on with a word before them. -/
theorem stops_bindings
    {bindings : Bindings} (unnamed : bindings.startsWithName = false) (rest : List Char) :
    Stops (bindings.write Blank.source ++ rest) := by
  cases bindings with
  | single name => cases unnamed
  | both name beforeComma afterComma group => cases unnamed
  | grouped group =>
    cases group with
    | whole afterStar afterAs name => exact (by decide : isWordChar '*' = false)
    | listed afterOpening first others afterLast trailing =>
      exact (by decide : isWordChar '{' = false)

/-- Words that could touch are kept apart, so the word `import` ends where it should. -/
theorem stops_afterImport (statement : ModuleImport) (rest : List Char) :
    Stops (statement.afterImport.write Blank.source ++
      (statement.writeClause Blank.source ++ rest)) := by
  by_cases apart : statement.afterImport = []
  · have noWord : (statement.typed.isSome || statement.bindings.startsWithName) = false :=
      eq_false_of_ne_true fun word => statement.startApart word apart
    obtain ⟨noMark, unnamed⟩ := Bool.or_eq_false_iff.mp noWord
    have unmarked : statement.typed = none := by simpa using noMark
    rw [apart, Gap.write_nil, List.nil_append]
    simp only [ModuleImport.writeClause, unmarked, writeMark, List.nil_append,
      List.append_assoc]
    exact stops_bindings unnamed _
  · exact stops_gap_of_ne_nil apart _

/-- The clause of a written import is read up to its `from`, comments as spaces. -/
theorem readClause_writeClause
    {statement : ModuleImport} {rest : List Char} (fromFree : statement.bindings.FromFree)
    (stops : Stops rest) :
    readClause 0 (statement.writeClause Blank.source ++ ("from".toList ++ rest)) =
      ⟨statement.writeClause Blank.kept, skipModule rest⟩ := by
  have endStops : statement.bindings.endsWithName = true →
      Stops (statement.beforeFrom.write Blank.source ++ ("from".toList ++ rest)) :=
    fun named => stops_gap_of_ne_nil (statement.endApart named) _
  have afterMark :
      readClause 0 (statement.bindings.write Blank.source ++
          (statement.beforeFrom.write Blank.source ++ ("from".toList ++ rest))) =
        ⟨statement.bindings.write Blank.kept ++ statement.beforeFrom.write Blank.kept,
          skipModule rest⟩ := by
    rw [readClause_bindings fromFree endStops, readClause_gap, readClause_from stops]
    simp [Clause.prepend]
  simp only [ModuleImport.writeClause, List.append_assoc]
  cases mark : statement.typed with
  | none => simpa [writeMark] using afterMark
  | some gap =>
    have markStops : Stops (gap.write Blank.source ++ (statement.bindings.write Blank.source ++
        (statement.beforeFrom.write Blank.source ++ ("from".toList ++ rest)))) := by
      by_cases touching : gap = []
      · rw [touching, Gap.write_nil, List.nil_append]
        refine stops_bindings (eq_false_of_ne_true fun named => ?_) _
        exact statement.markApart named (by rw [mark, touching])
      · exact stops_gap_of_ne_nil touching _
    simp only [writeMark, List.append_assoc]
    rw [readClause_word (by decide) (Or.inr (by decide)) markStops, readClause_gap, afterMark]
    simp [Clause.prepend]

/-- An import from a module gives the specifiers of what is kept of its clause, whatever follows
it. -/
theorem walk_clause
    {statement : ModuleImport} (fromFree : statement.bindings.FromFree) (rest : List Char) :
    walk false (statement.text ++ rest) =
      clauseSpecifiers (statement.writeClause Blank.kept) ++ walk false rest := by
  have originStops :=
    stops_gap statement.afterFrom
      (stops_literal statement.origin (terminatorText statement.terminator ++ rest))
  unfold ModuleImport.text
  simp only [List.append_assoc]
  rw [walk_import (stops_afterImport statement _),
    readImport_clause statement.afterImport (startsClause_writeClause statement _),
    readClause_writeClause fromFree originStops, skipModule_literal, walk_skipTerminator,
    walk_terminator]

theorem walk_moduleImport
    {statement : ModuleImport} (plain : statement.Plain) (rest : List Char) :
    walk false (statement.text ++ rest) =
      statement.specifierWords.map [' '].intercalate ++ walk false rest := by
  rw [walk_clause plain.1.fromFree, clauseSpecifiers_writeClause plain]

/-- Whether a text starts with a line break, or is empty: an item ends before it. -/
def EndsItem (text : List Char) : Prop :=
  text = [] ∨ ∃ rest, text = '\n' :: rest

theorem walk_endsItem
    {text : List Char} (ends : EndsItem text) (glued : Bool) :
    walk glued text = walk false (text.drop 1) := by
  rcases ends with rfl | ⟨rest, rfl⟩
  · simp [walk]
  · exact walk_blank .lineBreak glued rest

theorem stops_endsItem
    {text : List Char} (ends : EndsItem text) : Stops text := by
  rcases ends with rfl | ⟨rest, rfl⟩
  · exact trivial
  · exact (by decide : isWordChar '\n' = false)

/-- An import of a value gives its name and ends with its line or its semicolon. -/
theorem walk_valueImport
    {statement : ValueImport} (plain : statement.name.text ≠ "from".toList)
    {rest : List Char} (ends : EndsItem rest) :
    walk false (statement.text ++ rest) =
      statement.name.text :: walk false (rest.drop 1) := by
  have nameStops : ∀ later, Stops (statement.beforeEquals.write Blank.source ++ '=' :: later) :=
    fun later => stops_gap statement.beforeEquals (show isWordChar '=' = false by decide)
  have name :
      clauseSpecifiers (statement.name.text ++ statement.beforeEquals.write Blank.kept) =
        [statement.name.text] := by
    simpa using
      clauseSpecifiers_of_spells (spells_word (isWord_identifier statement.name.valid))
        (List.cons_ne_nil _ _) (vacant_gap statement.beforeEquals)
        (comma_not_mem_gap statement.beforeEquals)
  have ending : walk false (afterStatement (statement.ending.text ++ rest)) =
      walk false (rest.drop 1) := by
    cases statement.ending with
    | withLine =>
      rcases ends with rfl | ⟨later, rfl⟩
      · rfl
      · simp [Ending.text, afterStatement]
    | semicolon =>
      have passed : afterStatement (Ending.semicolon.text ++ rest) = rest := by
        simp [Ending.text, afterStatement]
      rw [passed, walk_endsItem ends]
    | lineBreak =>
      have passed : afterStatement (Ending.lineBreak.text ++ rest) = rest := by
        simp [Ending.text, afterStatement]
      rw [passed, walk_endsItem ends]
  unfold ValueImport.text
  simp only [List.append_assoc, List.cons_append]
  rw [walk_import (stops_separator statement.afterImport _), Separator.write,
    readImport_clause _ (startsClause_identifier statement.name.valid _),
    readClause_word statement.name.valid (Or.inr plain) (nameStops _), readClause_gap,
    readClause_equals, afterStatement_append statement.oneLine]
  simp only [Clause.prepend, List.append_nil]
  rw [name, ending]
  rfl

/-- A call, a member or a key of that name gives nothing; the walk goes on with the sign. -/
theorem walk_import_sign
    (gap : Gap) {c : Char} (naming : c = '(' ∨ c = '.' ∨ c = ':') (rest : List Char) :
    walk false ("import".toList ++ (gap.write Blank.source ++ c :: rest)) =
      walk (c == '.') rest := by
  have stops : Stops (gap.write Blank.source ++ c :: rest) := by
    apply stops_gap gap
    rcases naming with rfl | rfl | rfl
    · exact (by decide : isWordChar '(' = false)
    · exact (by decide : isWordChar '.' = false)
    · exact (by decide : isWordChar ':' = false)
  rw [walk_import stops, readImport_sign gap naming, clauseSpecifiers_nil, List.nil_append]
  rcases naming with rfl | rfl | rfl
  · exact walk_mark (by decide) (by decide) false rest
  · exact walk_mark (by decide) (by decide) false rest
  · exact walk_mark (by decide) (by decide) false rest

/-- A word after a gap that is not a keyword is passed over, whatever stands before the gap. -/
theorem walk_gap_identifier
    (gap : Gap) (glued : Bool) {word rest : List Char} (valid : isIdentifier word = true)
    (other : word ≠ "import".toList) (stops : Stops rest) :
    walk glued (gap.write Blank.source ++ (word ++ rest)) = walk false rest := by
  cases gap with
  | nil => exact walk_identifier valid stops glued (Or.inl other)
  | cons first others =>
    rw [Gap.write_cons, List.append_assoc, walk_blank, walk_gap]
    exact walk_identifier valid stops false (Or.inl other)

/-- The walk passes a whole item with the line break after it, and collects what it imports. -/
theorem walk_item
    {item : Item} (plain : item.Plain) {rest : List Char} (ends : EndsItem rest) :
    walk false (item.text ++ rest) = item.specifiers ++ walk false (rest.drop 1) := by
  have atEnd : ∀ glued, walk glued rest = walk false (rest.drop 1) := walk_endsItem ends
  cases item with
  | moduleImport statement =>
    rw [← atEnd false]
    exact walk_moduleImport plain rest
  | valueImport statement => exact walk_valueImport plain ends
  | lineComment body oneLine =>
    have passed : afterLine (body ++ rest) = rest.drop 1 := by
      rcases ends with rfl | ⟨later, rfl⟩
      · simpa using afterLine_of_oneLine oneLine
      · exact afterLine_append oneLine later
    change walk false ('/' :: '/' :: (body ++ rest)) = walk false (rest.drop 1)
    rw [walk, passed]
  | blockComment body unclosed =>
    exact (walk_blank (.blockComment body unclosed) false rest).trans (atEnd false)
  | quotation literal => exact (walk_literal literal false rest).trans (atEnd false)
  | word name other =>
    exact (walk_identifier name.valid (stops_endsItem ends) false (Or.inl other)).trans
      (atEnd false)
  | sign c isSign =>
    have noComment : c = '/' → ∀ tail, rest ≠ '/' :: tail ∧ rest ≠ '*' :: tail := by
      intro _ tail
      rcases ends with rfl | ⟨later, rfl⟩ <;> simp
    exact (walk_sign isSign false noComment).trans (atEnd _)
  | call gap =>
    have passed := walk_import_sign gap (Or.inl rfl) rest
    change walk false ("import".toList ++ gap.write Blank.source ++ ['('] ++ rest) = _
    rw [List.append_assoc, List.append_assoc]
    exact passed.trans (atEnd _)
  | member before after =>
    have passed :=
      walk_import_sign before (Or.inr (Or.inl rfl))
        (after.write Blank.source ++ ("meta".toList ++ rest))
    have named :=
      walk_gap_identifier after true (by decide : isIdentifier "meta".toList = true)
        (by decide) (stops_endsItem ends)
    change walk false ("import".toList ++ before.write Blank.source ++
      '.' :: (after.write Blank.source ++ "meta".toList) ++ rest) = _
    rw [List.append_assoc, List.append_assoc, List.cons_append, List.append_assoc]
    exact passed.trans (named.trans (atEnd false))
  | key gap =>
    have passed := walk_import_sign gap (Or.inr (Or.inr rfl)) rest
    change walk false ("import".toList ++ gap.write Blank.source ++ [':'] ++ rest) = _
    rw [List.append_assoc, List.append_assoc]
    exact passed.trans (atEnd _)
  | effect gap origin terminator =>
    have passed :=
      walk_import (stops_gap gap (stops_literal origin (terminatorText terminator ++ rest)))
    rw [readImport_literal, clauseSpecifiers_nil, List.nil_append, walk_terminator] at passed
    change walk false ("import".toList ++ gap.write Blank.source ++ origin.text ++
      terminatorText terminator ++ rest) = _
    rw [List.append_assoc, List.append_assoc, List.append_assoc]
    exact passed.trans (atEnd false)

/-! ## Sources -/

theorem sourceText_cons_cons (first second : Item) (others : List Item) :
    sourceText (first :: second :: others) =
      first.text ++ '\n' :: sourceText (second :: others) := by
  simp [sourceText, List.intercalate]

theorem walk_sourceText
    (items : List Item) (plain : ∀ item ∈ items, item.Plain) :
    walk false (sourceText items) = items.flatMap Item.specifiers := by
  induction items with
  | nil => simp [sourceText, walk]
  | cons first others inductionHypothesis =>
    have firstPlain := plain first List.mem_cons_self
    cases others with
    | nil =>
      have passed := walk_item firstPlain (Or.inl rfl : EndsItem [])
      simpa [sourceText, List.intercalate, walk] using passed
    | cons second later =>
      have passed :=
        walk_item firstPlain (Or.inr ⟨sourceText (second :: later), rfl⟩)
      rw [sourceText_cons_cons, passed, List.drop_one, List.tail_cons,
        inductionHypothesis fun item member => plain item (List.mem_cons_of_mem first member)]
      rfl

theorem unifyBreaks_of_free
    {source : List Char} (free : '\r' ∉ source) : Source.unifyBreaks source = source :=
  (Source.spelling_self free).unifyBreaks_eq

theorem importNames_statement_ofList (source : List Char) :
    importNames .statement (String.ofList source) =
      (scanStatements source).map String.ofList := by
  rw [importNames, String.toList_ofList]

/-- The statement scan of a plainly written source gives the specifiers of its import statements,
in order, and nothing else. -/
theorem importNames_sourceText
    (items : List Item) (plain : ∀ item ∈ items, item.Plain)
    (noReturn : '\r' ∉ sourceText items) :
    importNames .statement (String.ofList (sourceText items)) =
      (items.flatMap Item.specifiers).map String.ofList := by
  rw [importNames_statement_ofList, scanStatements, unifyBreaks_of_free noReturn,
    walk_sourceText items plain]

/-- A source with a statement in a comment and one in a literal, a clause over several lines and
an import of a value. -/
def sampleSource : List Item :=
  [.lineComment " import { Fake } from 'x'".toList (by decide),
    .moduleImport
      { afterImport := [.space, .blockComment "*".toList (by decide)]
        typed := some [.lineBreak]
        bindings :=
          .both ⟨"React".toList, by decide⟩ [] [.tab]
            (.listed [.lineBreak] ⟨none, ⟨"A".toList, by decide⟩,
                some (⟨[.space], by decide⟩, ⟨[.space], by decide⟩, ⟨"B".toList, by decide⟩)⟩
              [⟨[.space], [.lineComment "from".toList (by decide)],
                ⟨some ⟨[.space], by decide⟩, ⟨"from".toList, by decide⟩, none⟩⟩]
              [] (some [.space]))
        beforeFrom := []
        afterFrom := []
        origin := ⟨'\'', "react".toList, by decide, by simp⟩
        terminator := some [.space]
        startApart := by decide
        markApart := by simp
        endApart := by decide },
    .quotation ⟨'\x60', "import X from 'y'\n".toList, by decide, by simp⟩,
    .valueImport
      ⟨⟨[.space], by decide⟩, ⟨"fs".toList, by decide⟩, [.space], " require('fs')".toList,
        .withLine, by simp⟩]

theorem importNames_sampleSource :
    (∀ item ∈ sampleSource, item.Plain) ∧ '\r' ∉ sourceText sampleSource ∧
      importNames .statement (String.ofList (sourceText sampleSource)) =
        ["type React", "A as B", "type from", "fs"] := by
  have plain : ∀ item ∈ sampleSource, item.Plain := by
    simp [sampleSource, Item.Plain, ModuleImport.Plain, Bindings.Plain, Group.Plain]
  have noReturn : '\r' ∉ sourceText sampleSource := by decide +kernel
  exact ⟨plain, noReturn, (importNames_sourceText sampleSource plain noReturn).trans
    (by decide +kernel)⟩

def spacedImport (typed : Option Gap) (bindings : Bindings)
    (markApart : bindings.startsWithName = true → typed ≠ some []) : Item :=
  .moduleImport
    { afterImport := [.space], typed, bindings, beforeFrom := [.space], afterFrom := [.space]
      origin := ⟨'\'', "m".toList, by decide, by simp⟩
      terminator := none
      startApart := fun _ => by decide
      markApart
      endApart := fun _ => by decide }

/-- The statement `import from from 'm'`. -/
def namedFrom : Item :=
  spacedImport none (.single ⟨"from".toList, by decide⟩) (by simp)

/-- The statement `import type{A} from 'm'`. -/
def gluedType : Item :=
  spacedImport (some [])
    (.grouped (.listed [] ⟨none, ⟨"A".toList, by decide⟩, none⟩ [] [] none))
    (by simp [Bindings.startsWithName])

/-- The statement `import *as X from 'm'`. -/
def gluedStar : Item :=
  spacedImport none (.grouped (.whole [] ⟨[.space], by decide⟩ ⟨"X".toList, by decide⟩))
    (by simp)

/-- The statement `import type* as X from 'm'`. -/
def gluedTypedStar : Item :=
  spacedImport (some [])
    (.grouped (.whole [.space] ⟨[.space], by decide⟩ ⟨"X".toList, by decide⟩))
    (by simp [Bindings.startsWithName])

/-- The first `from` outside braces ends a clause, and a word that touches a brace or a star is
not taken apart from what stands on its other side. -/
theorem importNames_unplain :
    importNames .statement (String.ofList (sourceText [namedFrom])) ≠
        namedFrom.specifiers.map String.ofList ∧
      importNames .statement (String.ofList (sourceText [gluedType])) ≠
        gluedType.specifiers.map String.ofList ∧
      importNames .statement (String.ofList (sourceText [gluedStar])) ≠
        gluedStar.specifiers.map String.ofList ∧
      importNames .statement (String.ofList (sourceText [gluedTypedStar])) ≠
        gluedTypedStar.specifiers.map String.ofList := by
  simp only [importNames_statement_ofList]
  decide +kernel

end ImportAudit.Import
