import ImportAudit.Proofs.Import.StatementScan

/-!
# Layouts of one statement

An import statement is a list of tokens that may be laid out in many ways: any blanks, line breaks
and comments may stand between two tokens, and something has to only between two words. The
identifiers that the statement scan finds in the specifiers are the words among the tokens,
whatever the layout, with one exception: where the word `type`, a brace and the first name touch,
the brace is dropped without leaving anything, and two words become one.
-/

namespace ImportAudit.Import

open ImportAudit.Text (isWordChar isSpace)
open ImportAudit.Import.Written

/-! ## Identifiers of a clause -/

/-- The identifiers of a text once its braces are dropped. -/
def bareIdentifiers (text : List Char) : List (List Char) :=
  Text.identifiers (dropBraces text)

/-- Whether every blank of a text ends an identifier. -/
def BlanksApart (text : List Char) : Prop :=
  ∀ c ∈ text, isSpace c = true → isWordChar c = false

theorem identifiers_joined_words
    {piece : List Char} (apart : BlanksApart piece) :
    Text.identifiers ([' '].intercalate (Text.wordsOf piece)) = Text.identifiers piece := by
  rw [Text.identifiers, Text.runs_intercalate (by decide), Text.wordsOf]
  refine Text.runs_flatMap_runs piece fun c member stop => ?_
  exact apart c member (by simpa using stop)

theorem flatMap_filter_nonempty (parts : List (List Char)) :
    (parts.filter (!·.isEmpty)).flatMap Text.identifiers = parts.flatMap Text.identifiers := by
  induction parts with
  | nil => rfl
  | cons first others inductionHypothesis =>
    cases first with
    | nil =>
      have none : Text.identifiers [] = [] := Text.runs_nil
      simpa [none] using inductionHypothesis
    | cons head tail => simpa using inductionHypothesis

/-- Splitting a clause into specifiers keeps all its identifiers, and makes no others. -/
theorem identifiers_clauseSpecifiers
    {clause : List Char} (apart : BlanksApart clause) :
    (clauseSpecifiers clause).flatMap Text.identifiers = bareIdentifiers clause := by
  have pieceApart : ∀ piece ∈ Text.pieces ',' (dropBraces clause), BlanksApart piece := by
    intro piece member c inPiece
    have inBare : c ∈ dropBraces clause :=
      (Text.infix_of_mem_pieces member).subset inPiece
    exact apart c (List.mem_filter.mp inBare).1
  rw [clauseSpecifiers, flatMap_filter_nonempty, List.flatMap_map, bareIdentifiers,
    Text.identifiers, ← Text.runs_flatMap_pieces (by decide : isWordChar ',' = false)]
  exact List.flatMap_congr fun piece member => identifiers_joined_words (pieceApart piece member)

/-! ## Parts of a clause -/

section Parts

variable {front text rest : List Char}

/-- A sign that is no brace parts the identifiers: the other equations follow from this one. -/
theorem bareIdentifiers_append_stop
    {c : Char} (stop : isWordChar c = false) (other : isBrace c = false)
    (front rest : List Char) :
    bareIdentifiers (front ++ c :: rest) = bareIdentifiers front ++ bareIdentifiers rest := by
  rw [bareIdentifiers, dropBraces_append, dropBraces_cons_other other]
  exact Text.runs_append_stop stop _ _

theorem bareIdentifiers_append_brace
    {c : Char} (brace : isBrace c = true) (front rest : List Char) :
    bareIdentifiers (front ++ c :: rest) = bareIdentifiers (front ++ rest) := by
  simp [bareIdentifiers, dropBraces, brace]

theorem bareIdentifiers_silent_append
    (silent : ∀ c ∈ text, isWordChar c = false) (rest : List Char) :
    bareIdentifiers (text ++ rest) = bareIdentifiers rest := by
  rw [bareIdentifiers, dropBraces_append]
  exact Text.runs_append_of_fail
    (fun c member => silent c (List.mem_filter.mp member).1) _

theorem bareIdentifiers_append_silent
    (silent : ∀ c ∈ text, isWordChar c = false) (front : List Char) :
    bareIdentifiers (front ++ text) = bareIdentifiers front := by
  have bareSilent : ∀ c ∈ dropBraces text, isWordChar c = false :=
    fun c member => silent c (List.mem_filter.mp member).1
  have none : Text.runs isWordChar (dropBraces text) = [] := by
    have passed := Text.runs_append_of_fail bareSilent []
    rwa [List.append_nil, Text.runs_nil] at passed
  rw [bareIdentifiers, dropBraces_append, Text.identifiers, Text.runs_append_of_stops, none,
    List.append_nil]
  · rfl
  · exact fun c first => bareSilent c (List.mem_of_head? first)

theorem bareIdentifiers_word
    {word : List Char} (valid : isIdentifier word = true) : bareIdentifiers word = [word] := by
  rw [bareIdentifiers, (isWord_identifier valid).dropBraces_eq]
  exact Text.runs_of_pass (identifier_ne_nil valid)
    fun c member => (word_not_space_of_mem valid c member).1

theorem isBrace_of_test
    {test : Char → Bool} {c : Char} (passes : test c = true)
    (opening : test '{' = false) (closing : test '}' = false) : isBrace c = false := by
  simp [isBrace, ne_of_test passes opening, ne_of_test passes closing]

theorem stop_of_mem_gap
    {gap : Gap} {c : Char} (member : c ∈ gap.write Blank.kept) : isWordChar c = false := by
  obtain ⟨blank, _, inBlank⟩ := List.mem_flatMap.mp member
  cases blank <;>
    · rw [List.mem_singleton.mp inBlank]
      decide

@[simp]
theorem bareIdentifiers_gap_append (gap : Gap) (rest : List Char) :
    bareIdentifiers (gap.write Blank.kept ++ rest) = bareIdentifiers rest :=
  bareIdentifiers_silent_append (fun _ member => stop_of_mem_gap member) rest

@[simp]
theorem bareIdentifiers_append_gap (front : List Char) (gap : Gap) :
    bareIdentifiers (front ++ gap.write Blank.kept) = bareIdentifiers front :=
  bareIdentifiers_append_silent (fun _ member => stop_of_mem_gap member) front

theorem bareIdentifiers_apart
    {gap : Gap} (apart : gap ≠ []) (front rest : List Char) :
    bareIdentifiers (front ++ (gap.write Blank.kept ++ rest)) =
      bareIdentifiers front ++ bareIdentifiers rest := by
  obtain ⟨c, later, shape⟩ := List.exists_cons_of_ne_nil (write_kept_ne_nil apart)
  have inGap : ∀ other ∈ c :: later, other ∈ gap.write Blank.kept :=
    fun other member => shape ▸ member
  have other : isBrace c = false :=
    isBrace_of_test (space_of_mem_gap (inGap c List.mem_cons_self)) (by decide) (by decide)
  rw [shape, List.cons_append,
    bareIdentifiers_append_stop (stop_of_mem_gap (inGap c List.mem_cons_self)) other,
    bareIdentifiers_silent_append
      fun other member => stop_of_mem_gap (inGap other (List.mem_cons_of_mem c member))]

end Parts

end ImportAudit.Import

namespace ImportAudit.Import.Written

/-! ## Tokens of a statement -/

def tokensOfTrailing : Option Gap → List (List Char)
  | none => []
  | some _ => [[',']]

def Group.tokens : Group → List (List Char)
  | .whole _ _ name => [['*'], "as".toList, name.text]
  | .listed _ first others _ trailing =>
    ['{'] :: (first.words ++ others.flatMap (fun further => [','] :: further.specifier.words) ++
      tokensOfTrailing trailing ++ [['}']])

/-- The tokens of the bindings, without their layout. -/
def Bindings.tokens : Bindings → List (List Char)
  | .single name => [name.text]
  | .grouped group => group.tokens
  | .both name _ _ group => name.text :: [','] :: group.tokens

/-- The tokens between `import` and `from`, without their layout. -/
def ModuleImport.tokens (statement : ModuleImport) : List (List Char) :=
  (if statement.typed.isSome then ["type".toList] else []) ++ statement.bindings.tokens

def wordsAmong (tokens : List (List Char)) : List (List Char) :=
  tokens.filter isIdentifier

/-- Whether the word `type`, the brace behind it and the first name touch one another. -/
def ModuleImport.Glued (statement : ModuleImport) : Prop :=
  statement.typed = some [] ∧
    ∃ first others afterLast trailing,
      statement.bindings = .grouped (.listed [] first others afterLast trailing)

@[simp]
theorem wordsAmong_append (front rest : List (List Char)) :
    wordsAmong (front ++ rest) = wordsAmong front ++ wordsAmong rest :=
  List.filter_append front rest

theorem wordsAmong_words (specifier : Specifier) :
    wordsAmong specifier.words = specifier.words := by
  refine List.filter_eq_self.mpr fun token member => ?_
  rcases List.mem_append.mp member with inMark | inName
  · cases typed : specifier.typed with
    | none => simp [typed] at inMark
    | some separator =>
      have isType : token = "type".toList := by simpa [typed] using inMark
      rw [isType]
      decide
  · rcases List.mem_cons.mp inName with rfl | inRenamed
    · exact specifier.name.valid
    · rcases renamed : specifier.renamed with _ | ⟨before, after, name⟩
      · simp [renamed, renamedWords] at inRenamed
      · have cases : token = "as".toList ∨ token = name.text := by
          simpa [renamed, renamedWords] using inRenamed
        rcases cases with rfl | rfl
        · decide
        · exact name.valid

theorem wordsAmong_others (others : List Further) :
    wordsAmong (others.flatMap fun further => [','] :: further.specifier.words) =
      others.flatMap (·.specifier.words) := by
  induction others with
  | nil => rfl
  | cons first later inductionHypothesis =>
    have commaDropped : wordsAmong ([','] :: first.specifier.words) = first.specifier.words :=
      wordsAmong_words first.specifier
    rw [List.flatMap_cons, wordsAmong_append, commaDropped, inductionHypothesis,
      List.flatMap_cons]

theorem wordsAmong_listed
    (afterOpening : Gap) (first : Specifier) (others : List Further) (afterLast : Gap)
    (trailing : Option Gap) :
    wordsAmong (Group.listed afterOpening first others afterLast trailing).tokens =
      first.words ++ others.flatMap (·.specifier.words) := by
  have none : wordsAmong (tokensOfTrailing trailing) = [] := by
    cases trailing <;> rfl
  have brace : ∀ tokens, wordsAmong (['{'] :: tokens) = wordsAmong tokens := fun _ => rfl
  have closing : wordsAmong [['}']] = [] := rfl
  simp [Group.tokens, brace, wordsAmong_words, wordsAmong_others, none, closing]

end ImportAudit.Import.Written

namespace ImportAudit.Import

open ImportAudit.Text (isWordStart isWordChar isSpace)
open ImportAudit.Import.Written

/-! ## Identifiers of a written clause -/

theorem bareIdentifiers_typed (typed : Option Separator) (rest : List Char) :
    bareIdentifiers (writeTyped Blank.kept typed ++ rest) =
      (if typed.isSome then ["type".toList] else []) ++ bareIdentifiers rest := by
  cases typed with
  | none => rfl
  | some separator =>
    rw [writeTyped, List.append_assoc, Separator.write, bareIdentifiers_apart separator.apart,
      bareIdentifiers_word (by decide)]
    rfl

theorem bareIdentifiers_specifier (specifier : Specifier) :
    bareIdentifiers (specifier.write Blank.kept) = specifier.words := by
  have named : bareIdentifiers (specifier.name.text ++
      writeRenamed Blank.kept specifier.renamed) =
        specifier.name.text :: renamedWords specifier.renamed := by
    rcases specifier.renamed with _ | ⟨before, after, other⟩
    · rw [writeRenamed, List.append_nil, bareIdentifiers_word specifier.name.valid]
      rfl
    · simp only [writeRenamed, Separator.write, List.append_assoc]
      rw [bareIdentifiers_apart before.apart, bareIdentifiers_apart after.apart,
        bareIdentifiers_word specifier.name.valid, bareIdentifiers_word (by decide),
        bareIdentifiers_word other.valid]
      rfl
  rw [Specifier.write, List.append_assoc, bareIdentifiers_typed, named]
  rfl

/-- Further specifiers begin with their commas, so nothing in front of them goes on in them. -/
theorem bareIdentifiers_others (front : List Char) (others : List Further) :
    bareIdentifiers (front ++ others.flatMap (Further.write Blank.kept)) =
      bareIdentifiers front ++ others.flatMap (·.specifier.words) := by
  induction others generalizing front with
  | nil => simp
  | cons first later inductionHypothesis =>
    have shape : front ++ (first :: later).flatMap (Further.write Blank.kept) =
        (front ++ first.beforeComma.write Blank.kept) ++
          ',' :: (first.afterComma.write Blank.kept ++
            (first.specifier.write Blank.kept ++ later.flatMap (Further.write Blank.kept))) := by
      simp [Further.write]
    rw [shape, bareIdentifiers_append_stop (by decide) (by decide),
      bareIdentifiers_append_gap, bareIdentifiers_gap_append, inductionHypothesis,
      bareIdentifiers_specifier, List.flatMap_cons]

theorem silent_closing (afterLast : Gap) (trailing : Option Gap) :
    ∀ c ∈ afterLast.write Blank.kept ++ (writeTrailing Blank.kept trailing ++ ['}']),
      isWordChar c = false := by
  intro c member
  rcases List.mem_append.mp member with inGap | inRest
  · exact stop_of_mem_gap inGap
  · rcases List.mem_append.mp inRest with inTrailing | isBrace
    · cases trailing with
      | none => cases inTrailing
      | some gap =>
        rcases List.mem_cons.mp inTrailing with rfl | inGap
        · decide
        · exact stop_of_mem_gap inGap
    · rw [List.mem_singleton.mp isBrace]
      decide

/-- The inside of a list in braces, with the closing brace. -/
def listInside (first : Specifier) (others : List Further) (afterLast : Gap)
    (trailing : Option Gap) : List Char :=
  first.write Blank.kept ++ (others.flatMap (Further.write Blank.kept) ++
    (afterLast.write Blank.kept ++ (writeTrailing Blank.kept trailing ++ ['}'])))

theorem write_listed
    (afterOpening : Gap) (first : Specifier) (others : List Further) (afterLast : Gap)
    (trailing : Option Gap) :
    (Group.listed afterOpening first others afterLast trailing).write Blank.kept =
      '{' :: (afterOpening.write Blank.kept ++
        listInside first others afterLast trailing) := by
  simp [Group.write, listInside]

theorem bareIdentifiers_listInside
    (first : Specifier) (others : List Further) (afterLast : Gap) (trailing : Option Gap) :
    bareIdentifiers (listInside first others afterLast trailing) =
      first.words ++ others.flatMap (·.specifier.words) := by
  rw [listInside, ← List.append_assoc,
    bareIdentifiers_append_silent (silent_closing afterLast trailing),
    bareIdentifiers_others, bareIdentifiers_specifier]

@[simp]
theorem bareIdentifiers_star (rest : List Char) :
    bareIdentifiers ('*' :: rest) = bareIdentifiers rest :=
  bareIdentifiers_silent_append (List.forall_mem_singleton.mpr (by decide)) rest

theorem bareIdentifiers_group (group : Group) :
    bareIdentifiers (group.write Blank.kept) = wordsAmong group.tokens := by
  cases group with
  | whole afterStar afterAs name =>
    have words : wordsAmong [['*'], "as".toList, name.text] = ["as".toList, name.text] := by
      rw [wordsAmong, List.filter_cons_of_neg (by decide), List.filter_cons_of_pos (by decide),
        List.filter_cons_of_pos name.valid, List.filter_nil]
    simp only [Group.write, Separator.write, List.append_assoc]
    rw [bareIdentifiers_star, bareIdentifiers_gap_append, bareIdentifiers_apart afterAs.apart,
      bareIdentifiers_word (by decide), bareIdentifiers_word name.valid]
    exact words.symm
  | listed afterOpening first others afterLast trailing =>
    have opened : ∀ rest, bareIdentifiers ('{' :: rest) = bareIdentifiers rest :=
      bareIdentifiers_append_brace (by decide) []
    rw [write_listed, opened, bareIdentifiers_gap_append, bareIdentifiers_listInside,
      wordsAmong_listed]

theorem bareIdentifiers_bindings (bindings : Bindings) :
    bareIdentifiers (bindings.write Blank.kept) = wordsAmong bindings.tokens := by
  cases bindings with
  | single name =>
    have words : wordsAmong [name.text] = [name.text] := by simp [wordsAmong, name.valid]
    rw [Bindings.write, bareIdentifiers_word name.valid]
    exact words.symm
  | grouped group => exact bareIdentifiers_group group
  | both name beforeComma afterComma group =>
    have words : wordsAmong (name.text :: [','] :: group.tokens) =
        name.text :: wordsAmong group.tokens := by
      have comma : isIdentifier [','] = false := by decide
      simp [wordsAmong, name.valid, comma]
    rw [Bindings.write, bareIdentifiers_append_stop (by decide) (by decide),
      bareIdentifiers_append_gap, bareIdentifiers_word name.valid, bareIdentifiers_gap_append,
      bareIdentifiers_group]
    exact words.symm

/-! ## The mark before the bindings -/

/-- Unless `type` is glued to the name behind it, the identifiers behind it are those of the
bindings. -/
theorem bareIdentifiers_marked
    {statement : ModuleImport} {gap : Gap} (mark : statement.typed = some gap)
    (free : ¬ statement.Glued) :
    bareIdentifiers ("type".toList ++ (gap.write Blank.kept ++
        statement.bindings.write Blank.kept)) =
      "type".toList :: wordsAmong statement.bindings.tokens := by
  have isType : bareIdentifiers "type".toList = ["type".toList] :=
    bareIdentifiers_word (by decide)
  by_cases touching : gap = []
  · subst touching
    rw [Gap.write_nil, List.nil_append]
    match shape : statement.bindings with
    | .single name => exact absurd mark (statement.markApart (by rw [shape]; rfl))
    | .both name beforeComma afterComma group =>
      exact absurd mark (statement.markApart (by rw [shape]; rfl))
    | .grouped (.whole afterStar afterAs name) =>
      have group := bareIdentifiers_group (.whole afterStar afterAs name)
      rw [Group.write, bareIdentifiers_star] at group
      rw [Bindings.write, Group.write, bareIdentifiers_append_stop (by decide) (by decide),
        isType, group]
      rfl
    | .grouped (.listed afterOpening first others afterLast trailing) =>
      have apart : afterOpening ≠ [] := by
        rintro rfl
        exact free ⟨mark, first, others, afterLast, trailing, shape⟩
      rw [Bindings.write, write_listed, bareIdentifiers_append_brace (by decide),
        bareIdentifiers_apart apart, isType, bareIdentifiers_listInside, Bindings.tokens,
        wordsAmong_listed]
      rfl
  · rw [bareIdentifiers_apart touching, isType, bareIdentifiers_bindings]
    rfl

/-- Unless `type`, a brace and a name touch, the identifiers of a clause are its words. -/
theorem bareIdentifiers_writeClause
    {statement : ModuleImport} (free : ¬ statement.Glued) :
    bareIdentifiers (statement.writeClause Blank.kept) = wordsAmong statement.tokens := by
  rw [ModuleImport.writeClause, bareIdentifiers_append_gap, ModuleImport.tokens,
    wordsAmong_append]
  cases mark : statement.typed with
  | none =>
    rw [writeMark, List.nil_append, bareIdentifiers_bindings]
    rfl
  | some gap =>
    rw [writeMark, List.append_assoc, bareIdentifiers_marked mark free]
    rfl

theorem exists_start_listInside
    (first : Specifier) (others : List Further) (afterLast : Gap) (trailing : Option Gap) :
    ∃ head tail, listInside first others afterLast trailing = head :: tail ∧
      isWordStart head = true := by
  rw [listInside, Specifier.write, List.append_assoc, List.append_assoc]
  cases first.typed with
  | none =>
    obtain ⟨head, tail, shape, start⟩ := exists_start first.name.valid
    rw [writeTyped, List.nil_append, shape]
    exact ⟨head, _, rfl, start⟩
  | some separator => exact ⟨'t', _, rfl, by decide⟩

def joinFirst : List (List Char) → List (List Char)
  | first :: second :: others => (first ++ second) :: others
  | words => words

/-- Without the brace between them, `type` and the first name are one identifier. -/
theorem wordsAmong_glued
    {statement : ModuleImport} (glued : statement.Glued) :
    ∃ name others, wordsAmong statement.tokens = "type".toList :: name :: others ∧
      bareIdentifiers (statement.writeClause Blank.kept) =
        joinFirst ("type".toList :: name :: others) := by
  obtain ⟨mark, first, others, afterLast, trailing, shape⟩ := glued
  obtain ⟨head, tail, inside, start⟩ :=
    exists_start_listInside first others afterLast trailing
  have headWord : isWordChar head = true := by simp [isWordChar, start]
  have headKept : isBrace head = false := isBrace_of_test start (by decide) (by decide)
  have listed := bareIdentifiers_listInside first others afterLast trailing
  rw [inside, bareIdentifiers, dropBraces_cons_other headKept, Text.identifiers,
    Text.runs_cons_pass headWord] at listed
  refine ⟨head :: (dropBraces tail).takeWhile isWordChar,
    Text.runs isWordChar ((dropBraces tail).dropWhile isWordChar), ?_, ?_⟩
  · rw [ModuleImport.tokens, mark, wordsAmong_append, shape, Bindings.tokens, wordsAmong_listed,
      ← listed]
    rfl
  · have inMark : (dropBraces "type".toList).all isWordChar = true := by decide
    -- The run of the mark goes on in the first name.
    have joined := Text.runs_append_pass (List.all_eq_true.mp inMark) headWord (dropBraces tail)
    rw [ModuleImport.writeClause, bareIdentifiers_append_gap, mark, writeMark, Gap.write_nil,
      List.append_nil, shape, Bindings.write, write_listed, Gap.write_nil, List.nil_append,
      inside, bareIdentifiers_append_brace (by decide), bareIdentifiers,
      dropBraces_append, dropBraces_cons_other headKept, Text.identifiers, joined]
    rfl

/-! ## Blanks of a written clause -/

theorem blanksApart_append {front rest : List Char} :
    BlanksApart (front ++ rest) ↔ BlanksApart front ∧ BlanksApart rest :=
  List.forall_mem_append

theorem blanksApart_cons {c : Char} {rest : List Char} :
    BlanksApart (c :: rest) ↔ (isSpace c = true → isWordChar c = false) ∧ BlanksApart rest :=
  List.forall_mem_cons

theorem blanksApart_nil : BlanksApart [] :=
  fun _ member => nomatch member

theorem blanksApart_identifier
    {word : List Char} (valid : isIdentifier word = true) : BlanksApart word := by
  intro c member space
  rw [(word_not_space_of_mem valid c member).2] at space
  cases space

theorem blanksApart_name (name : Identifier) : BlanksApart name.text :=
  blanksApart_identifier name.valid

theorem blanksApart_gap (gap : Gap) : BlanksApart (gap.write Blank.kept) :=
  fun _ member _ => stop_of_mem_gap member

theorem blanksApart_specifier (specifier : Specifier) :
    BlanksApart (specifier.write Blank.kept) := by
  have typed : BlanksApart (writeTyped Blank.kept specifier.typed) := by
    cases specifier.typed with
    | none => exact blanksApart_nil
    | some separator =>
      exact blanksApart_append.mpr
        ⟨blanksApart_identifier (by decide), blanksApart_gap separator.gap⟩
  have renamed : BlanksApart (writeRenamed Blank.kept specifier.renamed) := by
    rcases specifier.renamed with _ | ⟨before, after, name⟩
    · exact blanksApart_nil
    · simp only [writeRenamed, Separator.write, blanksApart_append]
      exact ⟨⟨⟨blanksApart_gap before.gap, blanksApart_identifier (by decide)⟩,
        blanksApart_gap after.gap⟩, blanksApart_name name⟩
  rw [Specifier.write, blanksApart_append, blanksApart_append]
  exact ⟨⟨typed, blanksApart_name specifier.name⟩, renamed⟩

theorem blanksApart_others (others : List Further) :
    BlanksApart (others.flatMap (Further.write Blank.kept)) := by
  induction others with
  | nil => exact blanksApart_nil
  | cons first later inductionHypothesis =>
    simp only [List.flatMap_cons, Further.write, blanksApart_append, blanksApart_cons]
    exact ⟨⟨blanksApart_gap first.beforeComma, by decide, blanksApart_gap first.afterComma,
      blanksApart_specifier first.specifier⟩, inductionHypothesis⟩

theorem blanksApart_group (group : Group) : BlanksApart (group.write Blank.kept) := by
  cases group with
  | whole afterStar afterAs name =>
    simp only [Group.write, Separator.write, blanksApart_append, blanksApart_cons]
    exact ⟨by decide, ⟨⟨blanksApart_gap afterStar, blanksApart_identifier (by decide)⟩,
      blanksApart_gap afterAs.gap⟩, blanksApart_name name⟩
  | listed afterOpening first others afterLast trailing =>
    have trailed : BlanksApart (writeTrailing Blank.kept trailing) := by
      cases trailing with
      | none => exact blanksApart_nil
      | some gap => exact blanksApart_cons.mpr ⟨by decide, blanksApart_gap gap⟩
    simp only [Group.write, blanksApart_append, blanksApart_cons]
    exact ⟨by decide, ⟨⟨⟨⟨blanksApart_gap afterOpening, blanksApart_specifier first⟩,
      blanksApart_others others⟩, blanksApart_gap afterLast⟩, trailed⟩, by decide,
      blanksApart_nil⟩

theorem blanksApart_writeClause (statement : ModuleImport) :
    BlanksApart (statement.writeClause Blank.kept) := by
  have mark : BlanksApart (writeMark Blank.kept statement.typed) := by
    cases statement.typed with
    | none => exact blanksApart_nil
    | some gap =>
      exact blanksApart_append.mpr ⟨blanksApart_identifier (by decide), blanksApart_gap gap⟩
  have bindings : BlanksApart (statement.bindings.write Blank.kept) := by
    cases statement.bindings with
    | single name => exact blanksApart_name name
    | grouped group => exact blanksApart_group group
    | both name beforeComma afterComma group =>
      simp only [Bindings.write, blanksApart_append, blanksApart_cons]
      exact ⟨⟨blanksApart_name name, blanksApart_gap beforeComma⟩, by decide,
        blanksApart_gap afterComma, blanksApart_group group⟩
  rw [ModuleImport.writeClause, blanksApart_append, blanksApart_append]
  exact ⟨⟨mark, bindings⟩, blanksApart_gap statement.beforeFrom⟩

/-! ## What is imported -/

/-- The identifiers in the specifiers that the statement scan finds, in order. -/
def importedIdentifiers (source : String) : List (List Char) :=
  (importNames .statement source).flatMap fun specifier => Text.identifiers specifier.toList

/-- A source that spells a layout of a statement imports the identifiers of its clause. -/
theorem importedIdentifiers_of_spelling
    {statement : ModuleImport} (fromFree : statement.bindings.FromFree) {source : String}
    (spelled : Source.Spelling source.toList statement.text) :
    importedIdentifiers source =
      bareIdentifiers (statement.writeClause Blank.kept) := by
  have walked := walk_clause fromFree []
  rw [List.append_nil] at walked
  have none : walk false [] = [] := by simp [walk]
  rw [importedIdentifiers, importNames, scanStatements, spelled.unifyBreaks_eq, walked, none,
    List.append_nil, List.flatMap_map]
  simp only [String.toList_ofList]
  exact identifiers_clauseSpecifiers (blanksApart_writeClause statement)

section Spelled

variable {statement : ModuleImport} {source : String}

theorem importedIdentifiers_apart
    (fromFree : statement.bindings.FromFree)
    (spelled : Source.Spelling source.toList statement.text) (apart : ¬ statement.Glued) :
    importedIdentifiers source = wordsAmong statement.tokens := by
  rw [importedIdentifiers_of_spelling fromFree spelled]
  exact bareIdentifiers_writeClause apart

theorem importedIdentifiers_glued
    (fromFree : statement.bindings.FromFree)
    (spelled : Source.Spelling source.toList statement.text) (glued : statement.Glued) :
    importedIdentifiers source = joinFirst (wordsAmong statement.tokens) := by
  obtain ⟨name, others, words, joined⟩ := wordsAmong_glued glued
  rw [importedIdentifiers_of_spelling fromFree spelled, joined, words]

theorem joinFirst_words_ne (glued : statement.Glued) :
    joinFirst (wordsAmong statement.tokens) ≠ wordsAmong statement.tokens := by
  obtain ⟨name, others, words, _⟩ := wordsAmong_glued glued
  rw [words]
  intro same
  have lengths := congrArg List.length same
  simp [joinFirst] at lengths

end Spelled

/-- Two layouts of one statement give the same identifiers, the words of the clause, unless in
exactly one of them the word `type`, the brace behind it and the first name touch. -/
theorem importedIdentifiers_ofLayout
    {first second : ModuleImport} (firstFree : first.bindings.FromFree)
    (secondFree : second.bindings.FromFree) (sameTokens : first.tokens = second.tokens)
    {source other : String} (spelled : Source.Spelling source.toList first.text)
    (otherSpelled : Source.Spelling other.toList second.text) :
    (importedIdentifiers source = importedIdentifiers other ↔ (first.Glued ↔ second.Glued)) ∧
      (importedIdentifiers source = wordsAmong first.tokens ↔ ¬ first.Glued) := by
  by_cases firstGlued : first.Glued
  · have joined := importedIdentifiers_glued firstFree spelled firstGlued
    have differs := joinFirst_words_ne firstGlued
    by_cases secondGlued : second.Glued
    · have otherJoined := importedIdentifiers_glued secondFree otherSpelled secondGlued
      rw [joined, otherJoined, sameTokens]
      rw [sameTokens] at differs
      simp [firstGlued, secondGlued, differs]
    · have words := importedIdentifiers_apart secondFree otherSpelled secondGlued
      rw [joined, words, ← sameTokens]
      simp [firstGlued, secondGlued, differs]
  · have words := importedIdentifiers_apart firstFree spelled firstGlued
    by_cases secondGlued : second.Glued
    · have otherJoined := importedIdentifiers_glued secondFree otherSpelled secondGlued
      have differs := joinFirst_words_ne secondGlued
      rw [words, otherJoined, sameTokens]
      simp [firstGlued, secondGlued, differs.symm]
    · have otherWords := importedIdentifiers_apart secondFree otherSpelled secondGlued
      rw [words, otherWords, sameTokens]
      simp [firstGlued, secondGlued]

/-- An import of types without a blank or comment where none is needed, but for one behind the
brace. -/
def tightImport : ModuleImport where
  afterImport := [.space]
  typed := some []
  bindings :=
    .grouped (.listed [.space]
      ⟨none, ⟨"Grid".toList, by decide⟩,
        some (⟨[.tab], by decide⟩, ⟨[.tab], by decide⟩, ⟨"Cell".toList, by decide⟩)⟩
      [⟨[], [], none, ⟨"Row".toList, by decide⟩, none⟩] [] none)
  beforeFrom := []
  afterFrom := []
  origin := ⟨'"', "m".toList, by decide, by simp⟩
  terminator := some []
  startApart := by decide
  markApart := fun named => absurd named (by decide)
  endApart := fun named => absurd named (by decide)

def looseImport : ModuleImport where
  afterImport := [.blockComment [] (by decide)]
  typed := some [.lineBreak]
  bindings :=
    .grouped (.listed []
      ⟨none, ⟨"Grid".toList, by decide⟩,
        some (⟨[.tab], by decide⟩, ⟨[.lineComment " from".toList (by decide)], by decide⟩,
          ⟨"Cell".toList, by decide⟩)⟩
      [⟨[.space], [.lineBreak], none, ⟨"Row".toList, by decide⟩, none⟩] [.lineBreak] none)
  beforeFrom := [.space]
  afterFrom := [.space]
  origin := ⟨'"', "m".toList, by decide, by simp⟩
  terminator := some []
  startApart := by decide
  markApart := by simp
  endApart := by decide

def tightSource : String :=
  "import type\x7b Grid\tas\tCell,Row\x7dfrom\"m\";"

def looseSource : String :=
  "import/**/type\r\n\x7bGrid\tas// from\rCell ,\nRow\r\n\x7d from \"m\";"

theorem importedIdentifiers_looseImport :
    tightImport.bindings.FromFree ∧ looseImport.bindings.FromFree ∧
      tightImport.tokens = looseImport.tokens ∧
      Source.Spelling tightSource.toList tightImport.text ∧
      Source.Spelling looseSource.toList looseImport.text ∧
      importedIdentifiers tightSource =
        ["type".toList, "Grid".toList, "as".toList, "Cell".toList, "Row".toList] ∧
      importedIdentifiers tightSource = importedIdentifiers looseSource := by
  have sameTokens : tightImport.tokens = looseImport.tokens := by decide
  have tight : Source.Spelling tightSource.toList tightImport.text :=
    Source.spelling_iff.mpr (by decide +kernel)
  have loose : Source.Spelling looseSource.toList looseImport.text :=
    Source.spelling_iff.mpr (by decide +kernel)
  have tightApart : ¬ tightImport.Glued := by
    simp [ModuleImport.Glued, tightImport]
  have looseApart : ¬ looseImport.Glued := by
    simp [ModuleImport.Glued, looseImport]
  have tightFree : tightImport.bindings.FromFree := trivial
  have looseFree : looseImport.bindings.FromFree := trivial
  obtain ⟨layouts, words⟩ :=
    importedIdentifiers_ofLayout tightFree looseFree sameTokens tight loose
  exact ⟨tightFree, looseFree, sameTokens, tight, loose, words.mpr tightApart,
    layouts.mpr ⟨fun glued => absurd glued tightApart, fun glued => absurd glued looseApart⟩⟩

/-- The statement `import type{Grid} from "m";` with a gap behind the mark. -/
def markedList (mark : Gap) : ModuleImport where
  afterImport := [.space]
  typed := some mark
  bindings := .grouped (.listed [] ⟨none, ⟨"Grid".toList, by decide⟩, none⟩ [] [] none)
  beforeFrom := [.space]
  afterFrom := [.space]
  origin := ⟨'"', "m".toList, by decide, by simp⟩
  terminator := some []
  startApart := by simp
  markApart := by simp [Bindings.startsWithName]
  endApart := by simp

/-- A brace that touches a word on both sides is dropped without leaving anything. -/
theorem importedIdentifiers_markedList :
    (markedList []).tokens = (markedList [.space]).tokens ∧
      (markedList []).bindings.FromFree ∧ (markedList [.space]).bindings.FromFree ∧
      Source.Spelling "import type{Grid} from \"m\";".toList (markedList []).text ∧
      Source.Spelling "import type {Grid} from \"m\";".toList (markedList [.space]).text ∧
      importedIdentifiers "import type{Grid} from \"m\";" = ["typeGrid".toList] ∧
      importedIdentifiers "import type {Grid} from \"m\";" =
        ["type".toList, "Grid".toList] := by
  refine ⟨rfl, trivial, trivial, Source.spelling_iff.mpr (by decide +kernel),
    Source.spelling_iff.mpr (by decide +kernel), ?_, ?_⟩
  · decide +kernel
  · decide +kernel

end ImportAudit.Import
