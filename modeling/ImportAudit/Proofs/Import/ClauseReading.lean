import ImportAudit.Proofs.Import.Reading

/-!
# Reading a written clause

The clause reader copies a written clause token by token, with every comment as one space, up to
the word `from` that follows it. Splitting what it copied at the commas gives the words of the
specifiers again.
-/

namespace ImportAudit.Import

open ImportAudit.Text (isWordStart isWordChar isSpace)
open ImportAudit.Import.Written

/-! ## One token -/

@[simp]
theorem Clause.prepend_prepend (front after : List Char) (clause : Clause) :
    (clause.prepend after).prepend front = clause.prepend (front ++ after) := by
  simp [Clause.prepend]

/-- Where no comment starts, the reader looks at one character or one word at a time. -/
theorem readClause_plain
    {c : Char} {rest : List Char} (plain : OpensNone c rest) (depth : Nat) :
    readClause depth (c :: rest) =
      if c = '{' then (readClause (depth + 1) rest).prepend [c]
      else if c = '}' then (readClause (depth - 1) rest).prepend [c]
      else if depth = 0 && c = ';' then ⟨[], rest⟩
      else if depth = 0 && c = '=' then ⟨[], afterStatement rest⟩
      else if depth = 0 && isQuote c then ⟨[], skipTerminator (afterLiteral c rest)⟩
      else if isWordStart c then
        if depth = 0 && wordOf (c :: rest) = "from".toList then
          ⟨[], skipModule (afterWord (c :: rest))⟩
        else (readClause depth (afterWord (c :: rest))).prepend (wordOf (c :: rest))
      else (readClause depth rest).prepend [c] := by
  rw [readClause.eq_4 _ _ _ (fun tail slash shape => (plain slash tail).1 shape)
    (fun tail slash shape => (plain slash tail).2 shape)]
  rfl

/-- A character that opens neither a comment nor a brace ends the clause, starts a word, or is
kept. -/
theorem readClause_cons
    {c : Char} (notSlash : c ≠ '/') (notOpening : c ≠ '{') (notClosing : c ≠ '}')
    (depth : Nat) (rest : List Char) :
    readClause depth (c :: rest) =
      if depth = 0 && c = ';' then ⟨[], rest⟩
      else if depth = 0 && c = '=' then ⟨[], afterStatement rest⟩
      else if depth = 0 && isQuote c then ⟨[], skipTerminator (afterLiteral c rest)⟩
      else if isWordStart c then
        if depth = 0 && wordOf (c :: rest) = "from".toList then
          ⟨[], skipModule (afterWord (c :: rest))⟩
        else (readClause depth (afterWord (c :: rest))).prepend (wordOf (c :: rest))
      else (readClause depth rest).prepend [c] := by
  rw [readClause_plain fun slash => absurd slash notSlash, if_neg notOpening, if_neg notClosing]

/-- A word starts neither a comment nor a brace, and no literal and no end of a clause. -/
theorem readClause_wordStart
    {c : Char} (start : isWordStart c = true) (depth : Nat) (rest : List Char) :
    readClause depth (c :: rest) =
      if depth = 0 && wordOf (c :: rest) = "from".toList then
        ⟨[], skipModule (afterWord (c :: rest))⟩
      else (readClause depth (afterWord (c :: rest))).prepend (wordOf (c :: rest)) := by
  have notSemicolon : c ≠ ';' := ne_of_test start (by decide)
  have notEquals : c ≠ '=' := ne_of_test start (by decide)
  rw [readClause_cons (ne_of_test start (by decide)) (ne_of_test start (by decide))
    (ne_of_test start (by decide))]
  simp [start, isQuote_of_isWordStart start, notSemicolon, notEquals]

/-- A word is part of the clause unless it is the `from` outside braces. -/
theorem readClause_identifier
    {word rest : List Char} (valid : isIdentifier word = true) (stops : Stops rest)
    (depth : Nat) :
    readClause depth (word ++ rest) =
      if depth = 0 && word = "from".toList then ⟨[], skipModule rest⟩
      else (readClause depth rest).prepend word := by
  have whole := wordOf_identifier valid stops
  have after := afterWord_identifier valid stops
  obtain ⟨head, tail, rfl, start⟩ := exists_start valid
  rw [List.cons_append] at whole after ⊢
  rw [readClause_wordStart start, whole, after]

/-- A word is copied, unless it is `from` outside braces. -/
theorem readClause_word
    {word rest : List Char} {depth : Nat} (valid : isIdentifier word = true)
    (kept : depth ≠ 0 ∨ word ≠ "from".toList) (stops : Stops rest) :
    readClause depth (word ++ rest) = (readClause depth rest).prepend word := by
  rw [readClause_identifier valid stops, if_neg]
  simpa [← not_and_or] using kept

@[simp]
theorem readClause_from
    {rest : List Char} (stops : Stops rest) :
    readClause 0 ("from".toList ++ rest) = ⟨[], skipModule rest⟩ := by
  rw [readClause_identifier (by decide) stops]
  rfl

@[simp]
theorem readClause_equals (rest : List Char) :
    readClause 0 ('=' :: rest) = ⟨[], afterStatement rest⟩ := by
  rw [readClause_cons (by decide) (by decide) (by decide)]
  rfl

@[simp]
theorem readClause_star (depth : Nat) (rest : List Char) :
    readClause depth ('*' :: rest) = (readClause depth rest).prepend ['*'] := by
  rw [readClause_cons (by decide) (by decide) (by decide)]
  simp [show isQuote '*' = false by decide, show isWordStart '*' = false by decide]

@[simp]
theorem readClause_comma (depth : Nat) (rest : List Char) :
    readClause depth (',' :: rest) = (readClause depth rest).prepend [','] := by
  rw [readClause_cons (by decide) (by decide) (by decide)]
  simp [show isQuote ',' = false by decide, show isWordStart ',' = false by decide]

theorem readClause_opening (depth : Nat) (rest : List Char) :
    readClause depth ('{' :: rest) =
      (readClause (depth + 1) rest).prepend ['{'] := by
  simp [readClause]

theorem readClause_closing (depth : Nat) (rest : List Char) :
    readClause depth ('}' :: rest) =
      (readClause (depth - 1) rest).prepend ['}'] := by
  simp [readClause]

/-- A blank stays in the clause, a comment as one space. -/
theorem readClause_blank (blank : Blank) (depth : Nat) (rest : List Char) :
    readClause depth (blank.source ++ rest) =
      (readClause depth rest).prepend blank.kept := by
  cases blank with
  | space =>
    simp [Blank.source, Blank.kept, readClause, isQuote,
      show isWordStart ' ' = false by decide]
  | tab =>
    simp [Blank.source, Blank.kept, readClause, isQuote,
      show isWordStart '\t' = false by decide]
  | lineBreak =>
    simp [Blank.source, Blank.kept, readClause, isQuote,
      show isWordStart '\n' = false by decide]
  | lineComment body oneLine =>
    simp [Blank.source, Blank.kept, readClause, afterLine_append oneLine]
  | blockComment body unclosed =>
    simp [Blank.source, Blank.kept, readClause, afterBlock_append unclosed]

theorem readClause_gap (gap : Gap) (depth : Nat) (rest : List Char) :
    readClause depth (gap.write Blank.source ++ rest) =
      (readClause depth rest).prepend (gap.write Blank.kept) := by
  induction gap with
  | nil => rfl
  | cons first others inductionHypothesis =>
    rw [Gap.write_cons, Gap.write_cons, List.append_assoc, readClause_blank,
      inductionHypothesis, Clause.prepend_prepend]

theorem readClause_separator (separator : Separator) (depth : Nat) (rest : List Char) :
    readClause depth (separator.write Blank.source ++ rest) =
      (readClause depth rest).prepend (separator.write Blank.kept) :=
  readClause_gap separator.gap depth rest

/-! ## The clause -/

theorem readClause_typed
    (typed : Option Separator) {depth : Nat} (inside : depth ≠ 0) (rest : List Char) :
    readClause depth (writeTyped Blank.source typed ++ rest) =
      (readClause depth rest).prepend (writeTyped Blank.kept typed) := by
  cases typed with
  | none => rfl
  | some separator =>
    rw [writeTyped, List.append_assoc,
      readClause_word (by decide) (Or.inl inside) (stops_separator separator rest),
      readClause_separator, Clause.prepend_prepend]
    rfl

theorem stops_renamed
    (renamed : Option (Separator × Separator × Identifier)) {rest : List Char}
    (stops : Stops rest) :
    Stops (writeRenamed Blank.source renamed ++ rest) := by
  rcases renamed with _ | ⟨before, after, name⟩
  · exact stops
  · rw [writeRenamed, List.append_assoc, List.append_assoc, List.append_assoc]
    exact stops_separator before _

theorem readClause_renamed
    (renamed : Option (Separator × Separator × Identifier)) {depth : Nat} {rest : List Char}
    (inside : depth ≠ 0) (stops : Stops rest) :
    readClause depth (writeRenamed Blank.source renamed ++ rest) =
      (readClause depth rest).prepend (writeRenamed Blank.kept renamed) := by
  rcases renamed with _ | ⟨before, after, name⟩
  · rfl
  · have asStops := stops_separator after (name.text ++ rest)
    simp only [writeRenamed, List.append_assoc]
    rw [readClause_separator, readClause_word (by decide) (Or.inl inside) asStops,
      readClause_separator, readClause_word name.valid (Or.inl inside) stops]
    simp

theorem readClause_specifier
    (specifier : Specifier) {depth : Nat} {rest : List Char}
    (inside : depth ≠ 0) (stops : Stops rest) :
    readClause depth (specifier.write Blank.source ++ rest) =
      (readClause depth rest).prepend (specifier.write Blank.kept) := by
  have nameStops := stops_renamed specifier.renamed stops
  simp only [Specifier.write, List.append_assoc]
  rw [readClause_typed specifier.typed inside,
    readClause_word specifier.name.valid (Or.inl inside) nameStops,
    readClause_renamed specifier.renamed inside stops]
  simp

theorem stops_comma (gap : Gap) (rest : List Char) :
    Stops (gap.write Blank.source ++ ',' :: rest) :=
  stops_gap gap (show isWordChar ',' = false by decide)

theorem stops_others
    (others : List Further) {rest : List Char} (stops : Stops rest) :
    Stops (others.flatMap (Further.write Blank.source) ++ rest) := by
  cases others with
  | nil => exact stops
  | cons first later =>
    simp only [List.flatMap_cons, Further.write, List.append_assoc, List.cons_append]
    exact stops_comma first.beforeComma _

theorem readClause_others
    (others : List Further) {depth : Nat} {rest : List Char}
    (inside : depth ≠ 0) (stops : Stops rest) :
    readClause depth (others.flatMap (Further.write Blank.source) ++ rest) =
      (readClause depth rest).prepend (others.flatMap (Further.write Blank.kept)) := by
  induction others with
  | nil => rfl
  | cons first later inductionHypothesis =>
    have firstStops := stops_others later stops
    simp only [List.flatMap_cons, Further.write, List.append_assoc, List.cons_append]
    rw [readClause_gap, readClause_comma, readClause_gap,
      readClause_specifier first.specifier inside firstStops, inductionHypothesis]
    simp

theorem stops_trailing (trailing : Option Gap) (rest : List Char) :
    Stops (writeTrailing Blank.source trailing ++ '}' :: rest) := by
  cases trailing with
  | none => exact show isWordChar '}' = false by decide
  | some gap =>
    rw [writeTrailing, List.cons_append]
    exact show isWordChar ',' = false by decide

theorem readClause_trailing (trailing : Option Gap) (depth : Nat) (rest : List Char) :
    readClause depth (writeTrailing Blank.source trailing ++ rest) =
      (readClause depth rest).prepend (writeTrailing Blank.kept trailing) := by
  cases trailing with
  | none => rfl
  | some gap =>
    rw [writeTrailing, List.cons_append, readClause_comma, readClause_gap,
      Clause.prepend_prepend]
    rfl

/-- A group is copied with its braces, and leaves the reader outside of them. -/
theorem readClause_group
    {group : Group} {rest : List Char} (fromFree : group.FromFree)
    (stops : group.endsWithName = true → Stops rest) :
    readClause 0 (group.write Blank.source ++ rest) =
      (readClause 0 rest).prepend (group.write Blank.kept) := by
  cases group with
  | whole afterStar afterAs name =>
    have asStops := stops_separator afterAs (name.text ++ rest)
    simp only [Group.write, List.append_assoc, List.cons_append]
    rw [readClause_star, readClause_gap,
      readClause_word (by decide) (Or.inr (by decide)) asStops, readClause_separator,
      readClause_word name.valid (Or.inr fromFree) (stops rfl)]
    simp
  | listed afterOpening first others afterLast trailing =>
    have lastStops := stops_gap afterLast (stops_trailing trailing rest)
    have firstStops := stops_others others lastStops
    simp only [Group.write, List.append_assoc, List.cons_append, List.nil_append]
    rw [readClause_opening, readClause_gap,
      readClause_specifier first (by decide) firstStops,
      readClause_others others (by decide) lastStops, readClause_gap, readClause_trailing,
      readClause_closing]
    simp

theorem readClause_bindings
    {bindings : Bindings} {rest : List Char} (fromFree : bindings.FromFree)
    (stops : bindings.endsWithName = true → Stops rest) :
    readClause 0 (bindings.write Blank.source ++ rest) =
      (readClause 0 rest).prepend (bindings.write Blank.kept) := by
  cases bindings with
  | single name => exact readClause_word name.valid (Or.inr fromFree) (stops rfl)
  | grouped group => exact readClause_group fromFree stops
  | both name beforeComma afterComma group =>
    have nameStops :=
      stops_comma beforeComma (afterComma.write Blank.source ++ (group.write Blank.source ++ rest))
    simp only [Bindings.write, List.append_assoc, List.cons_append]
    rw [readClause_word name.valid (Or.inr fromFree.1) nameStops, readClause_gap,
      readClause_comma, readClause_gap, readClause_group fromFree.2 stops]
    simp

end ImportAudit.Import
