import ImportAudit.Proofs.Import.Reading

/-!
# Splitting a kept clause

A clause is split at its commas, and each piece gives one specifier: its words, one space between
any two, the braces dropped. So the text that a reader keeps of a written clause gives the words
of the written specifiers, in order.
-/

namespace ImportAudit.Import

open ImportAudit.Text (isWordStart isWordChar isSpace)
open ImportAudit.Import.Written

/-- The words of one piece between commas. -/
def pieceWords (piece : List Char) : List (List Char) :=
  Text.wordsOf (dropBraces piece)

/-- Whether a text holds nothing but white space and braces. -/
def Vacant (text : List Char) : Prop :=
  ∀ c ∈ text, isSpace c = true ∨ isBrace c = true

/-- Whether a text adds these words in front of the words of whatever follows it. -/
def Leads (text : List Char) (words : List (List Char)) : Prop :=
  ',' ∉ text ∧ ∀ rest, pieceWords (text ++ rest) = words ++ pieceWords rest

/-- Whether a text consists of these words once nothing but white space and braces follow. -/
def Spells (text : List Char) (words : List (List Char)) : Prop :=
  ',' ∉ text ∧ ∀ rest, Vacant rest → pieceWords (text ++ rest) = words

/-! ## Commas and pieces -/

@[simp]
theorem dropBraces_append (front rest : List Char) :
    dropBraces (front ++ rest) = dropBraces front ++ dropBraces rest :=
  List.filter_append front rest

theorem dropBraces_cons_other
    {c : Char} (other : isBrace c = false) (rest : List Char) :
    dropBraces (c :: rest) = c :: dropBraces rest := by
  simp [dropBraces, other]

theorem dropBraces_of_free
    {text : List Char} (free : ∀ c ∈ text, isBrace c = false) : dropBraces text = text := by
  refine List.filter_eq_self.mpr fun c member => ?_
  rw [free c member]
  rfl

/-- The specifiers of a clause are those before a comma and those after it. -/
theorem clauseSpecifiers_append_comma (front rest : List Char) :
    clauseSpecifiers (front ++ ',' :: rest) =
      clauseSpecifiers front ++ clauseSpecifiers rest := by
  have commaKept : dropBraces (',' :: rest) = ',' :: dropBraces rest :=
    dropBraces_cons_other (by decide) rest
  simp [clauseSpecifiers, commaKept, Text.pieces_append_separator]

theorem not_mem_dropBraces
    {c : Char} {text : List Char} (absent : c ∉ text) : c ∉ dropBraces text :=
  fun member => absent (List.mem_filter.mp member).1

theorem clauseSpecifiers_of_words
    {piece : List Char} (free : ',' ∉ piece) (words : pieceWords piece ≠ []) :
    clauseSpecifiers piece = [[' '].intercalate (pieceWords piece)] := by
  obtain ⟨first, others, shape⟩ := List.exists_cons_of_ne_nil words
  have isRun : first ∈ Text.runs (fun c => !isSpace c) (dropBraces piece) := by
    change first ∈ pieceWords piece
    rw [shape]
    exact List.mem_cons_self
  have firstNonempty : first ≠ [] := Text.ne_nil_of_mem_runs isRun
  have joinedNonempty : [' '].intercalate (first :: others) ≠ [] := by
    cases others with
    | nil => simpa using firstNonempty
    | cons second later => simp [List.intercalate, firstNonempty]
  rw [shape]
  rw [pieceWords] at shape
  simp [clauseSpecifiers, Text.pieces_of_free (not_mem_dropBraces free), shape, joinedNonempty]

theorem clauseSpecifiers_of_no_words
    {piece : List Char} (free : ',' ∉ piece) (none : pieceWords piece = []) :
    clauseSpecifiers piece = [] := by
  rw [pieceWords] at none
  simp [clauseSpecifiers, Text.pieces_of_free (not_mem_dropBraces free), none]

/-! ## Vacant text -/

theorem stop_of_mem_vacant
    {text : List Char} (vacant : Vacant text) {c : Char} (member : c ∈ dropBraces text) :
    (!isSpace c) = false := by
  obtain ⟨inText, notBrace⟩ := List.mem_filter.mp member
  rcases vacant c inText with space | brace
  · rw [space]
    rfl
  · rw [brace] at notBrace
    cases notBrace

theorem pieceWords_vacant_append
    {text : List Char} (vacant : Vacant text) (rest : List Char) :
    pieceWords (text ++ rest) = pieceWords rest := by
  rw [pieceWords, dropBraces_append]
  exact Text.runs_append_of_fail (fun _ member => stop_of_mem_vacant vacant member) _

theorem pieceWords_of_vacant
    {text : List Char} (vacant : Vacant text) : pieceWords text = [] := by
  simpa [pieceWords, dropBraces, Text.wordsOf] using pieceWords_vacant_append vacant []

theorem vacant_append
    {front rest : List Char} (first : Vacant front) (second : Vacant rest) :
    Vacant (front ++ rest) := by
  intro c member
  rcases List.mem_append.mp member with inFront | inRest
  · exact first c inFront
  · exact second c inRest

theorem vacant_closing
    {rest : List Char} (vacant : Vacant rest) : Vacant ('}' :: rest) := by
  intro c member
  rcases List.mem_cons.mp member with rfl | later
  · exact Or.inr (by decide)
  · exact vacant c later

theorem Written.Blank.space_of_mem_kept
    {blank : Blank} {c : Char} (member : c ∈ blank.kept) : isSpace c = true := by
  cases blank <;>
    · rw [List.mem_singleton.mp member]
      decide

theorem space_of_mem_gap
    {gap : Gap} {c : Char} (member : c ∈ gap.write Blank.kept) : isSpace c = true := by
  obtain ⟨blank, _, inBlank⟩ := List.mem_flatMap.mp member
  exact Blank.space_of_mem_kept inBlank

theorem vacant_gap (gap : Gap) : Vacant (gap.write Blank.kept) :=
  fun _ member => Or.inl (space_of_mem_gap member)

theorem comma_not_mem_gap (gap : Gap) : ',' ∉ gap.write Blank.kept :=
  fun member => absurd (space_of_mem_gap member) (by decide)

/-! ## Words one after the other -/

theorem leads_nil : Leads [] [] :=
  ⟨List.not_mem_nil, fun _ => rfl⟩

theorem leads_append
    {front rest : List Char} {first second : List (List Char)}
    (leadsFirst : Leads front first) (leadsSecond : Leads rest second) :
    Leads (front ++ rest) (first ++ second) := by
  refine ⟨fun member => ?_, fun later => ?_⟩
  · rcases List.mem_append.mp member with inFront | inRest
    · exact leadsFirst.1 inFront
    · exact leadsSecond.1 inRest
  · rw [List.append_assoc, leadsFirst.2, leadsSecond.2, List.append_assoc]

theorem spells_append
    {front rest : List Char} {first second : List (List Char)}
    (leads : Leads front first) (spells : Spells rest second) :
    Spells (front ++ rest) (first ++ second) := by
  refine ⟨fun member => ?_, fun later vacant => ?_⟩
  · rcases List.mem_append.mp member with inFront | inRest
    · exact leads.1 inFront
    · exact spells.1 inRest
  · rw [List.append_assoc, leads.2, spells.2 later vacant]

theorem leads_vacant
    {text : List Char} (vacant : Vacant text) (free : ',' ∉ text) : Leads text [] :=
  ⟨free, pieceWords_vacant_append vacant⟩

theorem leads_gap (gap : Gap) : Leads (gap.write Blank.kept) [] :=
  leads_vacant (vacant_gap gap) (comma_not_mem_gap gap)

theorem leads_opening : Leads ['{'] [] := by
  refine leads_vacant (fun c member => Or.inr ?_) (by decide)
  rw [List.mem_singleton.mp member]
  decide

/-- What makes a text one word of a piece. -/
structure IsWord (word : List Char) : Prop where
  nonempty : word ≠ []
  solid : ∀ c ∈ word, isSpace c = false ∧ isBrace c = false ∧ c ≠ ','

theorem isWord_identifier
    {word : List Char} (valid : isIdentifier word = true) : IsWord word := by
  refine ⟨identifier_ne_nil valid, fun c member => ?_⟩
  obtain ⟨inWord, notSpace⟩ := word_not_space_of_mem valid c member
  have notOpening : c ≠ '{' := ne_of_test inWord (by decide)
  have notClosing : c ≠ '}' := ne_of_test inWord (by decide)
  refine ⟨notSpace, ?_, ne_of_test inWord (by decide)⟩
  simp [isBrace, notOpening, notClosing]

theorem isWord_star : IsWord ['*'] := by
  refine ⟨by decide, fun c member => ?_⟩
  rw [List.mem_singleton.mp member]
  decide

theorem IsWord.dropBraces_eq
    {word : List Char} (isWord : IsWord word) : dropBraces word = word :=
  dropBraces_of_free fun c member => (isWord.solid c member).2.1

theorem IsWord.comma_not_mem
    {word : List Char} (isWord : IsWord word) : ',' ∉ word :=
  fun member => (isWord.solid ',' member).2.2 rfl

theorem IsWord.runs_eq
    {word : List Char} (isWord : IsWord word) :
    Text.runs (fun c => !isSpace c) word = [word] := by
  refine Text.runs_of_pass isWord.nonempty fun c member => ?_
  rw [(isWord.solid c member).1]
  rfl

/-- A word that stands apart from what follows is one word. -/
theorem leads_word_append
    {word text : List Char} (isWord : IsWord word) (vacant : Vacant text) (free : ',' ∉ text)
    (apart : dropBraces text ≠ []) : Leads (word ++ text) [word] := by
  refine ⟨fun member => ?_, fun rest => ?_⟩
  · rcases List.mem_append.mp member with inWord | inText
    · exact isWord.comma_not_mem inWord
    · exact free inText
  · obtain ⟨c, later, shape⟩ := List.exists_cons_of_ne_nil apart
    have stops : ∀ other ∈ c :: later, (!isSpace other) = false :=
      fun other member => stop_of_mem_vacant vacant (by rw [shape]; exact member)
    rw [pieceWords, pieceWords, Text.wordsOf, Text.wordsOf, dropBraces_append,
      dropBraces_append, isWord.dropBraces_eq, shape, List.append_assoc, List.cons_append,
      Text.runs_append_stop (stops c List.mem_cons_self), isWord.runs_eq,
      Text.runs_append_of_fail fun other member =>
        stops other (List.mem_cons_of_mem c member)]

theorem dropBraces_gap (gap : Gap) :
    dropBraces (gap.write Blank.kept) = gap.write Blank.kept := by
  refine dropBraces_of_free fun c member => ?_
  have space := space_of_mem_gap member
  have notOpening : c ≠ '{' := ne_of_test space (by decide)
  have notClosing : c ≠ '}' := ne_of_test space (by decide)
  simp [isBrace, notOpening, notClosing]

theorem write_kept_ne_nil
    {gap : Gap} (apart : gap ≠ []) : gap.write Blank.kept ≠ [] := by
  obtain ⟨first, others, rfl⟩ := List.exists_cons_of_ne_nil apart
  cases first <;> exact List.cons_ne_nil _ _

theorem leads_word
    {word : List Char} (isWord : IsWord word) {gap : Gap} (apart : gap ≠ []) :
    Leads (word ++ gap.write Blank.kept) [word] := by
  refine leads_word_append isWord (vacant_gap gap) (comma_not_mem_gap gap) ?_
  rw [dropBraces_gap]
  exact write_kept_ne_nil apart

theorem spells_word
    {word : List Char} (isWord : IsWord word) : Spells word [word] := by
  refine ⟨isWord.comma_not_mem, fun rest vacant => ?_⟩
  have none := pieceWords_of_vacant vacant
  rw [pieceWords, dropBraces_append, isWord.dropBraces_eq]
  rw [pieceWords] at none
  cases shape : dropBraces rest with
  | nil =>
    rw [List.append_nil]
    exact isWord.runs_eq
  | cons c tail =>
    have stop : (!isSpace c) = false := by
      apply stop_of_mem_vacant vacant
      rw [shape]
      exact List.mem_cons_self
    rw [shape, Text.wordsOf, Text.runs_cons_stop stop] at none
    rw [Text.wordsOf, Text.runs_append_stop stop, isWord.runs_eq, none]
    rfl

/-! ## Written clauses -/

theorem clauseSpecifiers_of_spells
    {text rest : List Char} {words : List (List Char)} (spells : Spells text words)
    (nonempty : words ≠ []) (vacant : Vacant rest) (free : ',' ∉ rest) :
    clauseSpecifiers (text ++ rest) = [[' '].intercalate words] := by
  have found := spells.2 rest vacant
  have noComma : ',' ∉ text ++ rest := by
    simp [spells.1, free]
  rw [clauseSpecifiers_of_words noComma (by rw [found]; exact nonempty), found]

theorem leads_typed (typed : Option Separator) :
    Leads (writeTyped Blank.kept typed) (if typed.isSome then ["type".toList] else []) := by
  cases typed with
  | none => exact leads_nil
  | some separator => exact leads_word (isWord_identifier (by decide)) separator.apart

theorem spells_renamed
    (name : Identifier) (renamed : Option (Separator × Separator × Identifier)) :
    Spells (name.text ++ writeRenamed Blank.kept renamed)
      (name.text :: renamedWords renamed) := by
  rcases renamed with _ | ⟨before, after, other⟩
  · rw [writeRenamed, List.append_nil]
    exact spells_word (isWord_identifier name.valid)
  · have first := leads_word (isWord_identifier name.valid) before.apart
    have second :=
      leads_word (isWord_identifier (by decide : isIdentifier "as".toList = true)) after.apart
    have third := spells_word (isWord_identifier other.valid)
    simpa [writeRenamed, renamedWords, Separator.write] using
      spells_append first (spells_append second third)

theorem spells_specifier (specifier : Specifier) :
    Spells (specifier.write Blank.kept) specifier.words := by
  have spells :=
    spells_append (leads_typed specifier.typed)
      (spells_renamed specifier.name specifier.renamed)
  simpa [Specifier.write, Specifier.words] using spells

theorem specifier_words_ne_nil (specifier : Specifier) : specifier.words ≠ [] := by
  simp [Specifier.words]

/-- The rest of a list in braces gives the specifiers after the one that is being spelled; a
trailing comma gives none. -/
theorem clauseSpecifiers_others
    (others : List Further) (afterLast : Gap) (trailing : Option Gap)
    {tail : List Char} (vacant : Vacant tail) (free : ',' ∉ tail) :
    ∀ {text : List Char} {words : List (List Char)},
      Spells text words →
      words ≠ [] →
      clauseSpecifiers (text ++ (others.flatMap (Further.write Blank.kept) ++
          (afterLast.write Blank.kept ++ (writeTrailing Blank.kept trailing ++
            '}' :: tail)))) =
        (words :: others.map (·.specifier.words)).map [' '].intercalate := by
  induction others with
  | nil =>
    intro text words spells nonempty
    cases trailing with
    | none =>
      have last :=
        clauseSpecifiers_of_spells spells nonempty
          (vacant_append (vacant_gap afterLast) (vacant_closing vacant))
          (by simp [comma_not_mem_gap, free])
      simpa [writeTrailing] using last
    | some gap =>
      have last : clauseSpecifiers (gap.write Blank.kept ++ '}' :: tail) = [] :=
        clauseSpecifiers_of_no_words (by simp [comma_not_mem_gap, free]) <|
          pieceWords_of_vacant (vacant_append (vacant_gap gap) (vacant_closing vacant))
      have first :=
        clauseSpecifiers_of_spells spells nonempty (vacant_gap afterLast)
          (comma_not_mem_gap afterLast)
      have split :=
        clauseSpecifiers_append_comma (text ++ afterLast.write Blank.kept)
          (gap.write Blank.kept ++ '}' :: tail)
      rw [first, last] at split
      simpa [writeTrailing] using split
  | cons next later inductionHypothesis =>
    intro text words spells nonempty
    have first :=
      clauseSpecifiers_of_spells spells nonempty (vacant_gap next.beforeComma)
        (comma_not_mem_gap next.beforeComma)
    have rest :=
      inductionHypothesis
        (spells_append (leads_gap next.afterComma) (spells_specifier next.specifier))
        (specifier_words_ne_nil next.specifier)
    have split :=
      clauseSpecifiers_append_comma (text ++ next.beforeComma.write Blank.kept)
        (next.afterComma.write Blank.kept ++ next.specifier.write Blank.kept ++
          (later.flatMap (Further.write Blank.kept) ++
            (afterLast.write Blank.kept ++ (writeTrailing Blank.kept trailing ++
              '}' :: tail))))
    rw [first, rest] at split
    simpa [Further.write] using split

/-- What is kept of a list in braces, after words that lead its first specifier, gives its
specifiers. -/
theorem clauseSpecifiers_listed
    {lead tail : List Char} {words : List (List Char)} {afterOpening : Gap}
    (leads : Leads (lead ++ '{' :: afterOpening.write Blank.kept) words)
    (first : Specifier) (others : List Further) (afterLast : Gap) (trailing : Option Gap)
    (vacant : Vacant tail) (free : ',' ∉ tail) :
    clauseSpecifiers (lead ++
        ((Group.listed afterOpening first others afterLast trailing).write Blank.kept ++ tail)) =
      ((words ++ first.words) :: others.map (·.specifier.words)).map [' '].intercalate := by
  have spells := spells_append leads (spells_specifier first)
  have nonempty : words ++ first.words ≠ [] := by
    simp [specifier_words_ne_nil]
  have result := clauseSpecifiers_others others afterLast trailing vacant free spells nonempty
  simpa [Group.write] using result

/-- A group names its specifiers, the first one behind whatever words lead. -/
theorem clauseSpecifiers_group
    {lead tail : List Char} {words : List (List Char)} {group : Group}
    (leads : Leads lead words) (plain : group.Plain) (vacant : Vacant tail)
    (free : ',' ∉ tail) :
    clauseSpecifiers (lead ++ (group.write Blank.kept ++ tail)) =
      (leadFirst words group.specifierWords).map [' '].intercalate := by
  cases group with
  | whole afterStar afterAs name =>
    have star := leads_word isWord_star plain.1
    have asWord :=
      leads_word (isWord_identifier (by decide : isIdentifier "as".toList = true)) afterAs.apart
    have last := spells_word (isWord_identifier name.valid)
    have spells :=
      spells_append leads (spells_append star (spells_append asWord last))
    have result := clauseSpecifiers_of_spells spells (by simp) vacant free
    simpa [Group.write, Group.specifierWords, leadFirst, Separator.write] using result
  | listed afterOpening first others afterLast trailing =>
    have opened := leads_append leads (leads_append leads_opening (leads_gap afterOpening))
    rw [List.append_nil, List.append_nil, List.singleton_append] at opened
    exact clauseSpecifiers_listed opened first others afterLast trailing vacant free

/-- Bindings name their specifiers, the first one behind whatever words lead. -/
theorem clauseSpecifiers_bindings
    {lead tail : List Char} {words : List (List Char)} {bindings : Bindings}
    (leads : Leads lead words) (plain : bindings.Plain) (vacant : Vacant tail)
    (free : ',' ∉ tail) :
    clauseSpecifiers (lead ++ (bindings.write Blank.kept ++ tail)) =
      (leadFirst words bindings.specifierWords).map [' '].intercalate := by
  cases bindings with
  | single name =>
    have spells := spells_append leads (spells_word (isWord_identifier name.valid))
    have result := clauseSpecifiers_of_spells spells (by simp) vacant free
    simpa [Bindings.write, Bindings.specifierWords, leadFirst] using result
  | grouped group => exact clauseSpecifiers_group leads plain vacant free
  | both name beforeComma afterComma group =>
    have spells := spells_append leads (spells_word (isWord_identifier name.valid))
    have first :=
      clauseSpecifiers_of_spells spells (by simp) (vacant_gap beforeComma)
        (comma_not_mem_gap beforeComma)
    have rest := clauseSpecifiers_group (leads_gap afterComma) plain.2 vacant free
    have split :=
      clauseSpecifiers_append_comma
        (lead ++ name.text ++ beforeComma.write Blank.kept)
        (afterComma.write Blank.kept ++ (group.write Blank.kept ++ tail))
    have unled : leadFirst [] group.specifierWords = group.specifierWords := by
      cases group <;> rfl
    rw [first, rest, unled] at split
    simpa [Bindings.write, Bindings.specifierWords, leadFirst] using split

/-- A brace may stand between the word `type` and the first name, if a blank does too. -/
theorem leads_type_opening
    {gap afterOpening : Gap} (apart : gap ++ afterOpening ≠ []) :
    Leads (("type".toList ++ gap.write Blank.kept) ++
      '{' :: afterOpening.write Blank.kept) ["type".toList] := by
  rw [List.append_assoc]
  refine leads_word_append (isWord_identifier (by decide)) ?_ ?_ ?_
  · refine vacant_append (vacant_gap gap) fun c member => ?_
    rcases List.mem_cons.mp member with rfl | inGap
    · exact Or.inr (by decide)
    · exact vacant_gap afterOpening c inGap
  · simp [comma_not_mem_gap]
  · have braceDropped :
        dropBraces ('{' :: afterOpening.write Blank.kept) =
          dropBraces (afterOpening.write Blank.kept) := rfl
    have kept := write_kept_ne_nil apart
    rw [dropBraces_append, braceDropped, dropBraces_gap, dropBraces_gap]
    simpa [Gap.write] using kept

/-- What is kept of the clause of a statement gives the specifiers of the statement. -/
theorem clauseSpecifiers_writeClause
    {statement : ModuleImport} (plain : statement.Plain) :
    clauseSpecifiers (statement.writeClause Blank.kept) =
      statement.specifierWords.map [' '].intercalate := by
  obtain ⟨bindingsPlain, apart⟩ := plain
  have vacant := vacant_gap statement.beforeFrom
  have free := comma_not_mem_gap statement.beforeFrom
  rw [ModuleImport.writeClause, List.append_assoc, ModuleImport.specifierWords]
  cases mark : statement.typed with
  | none => exact clauseSpecifiers_bindings leads_nil bindingsPlain vacant free
  | some gap =>
    by_cases touching : gap = []
    · -- Only a list in braces can follow a `type` that touches what follows it.
      have opened := apart gap mark
      rw [touching, List.nil_append] at opened
      match shape : statement.bindings with
      | .grouped (.listed afterOpening first others afterLast trailing) =>
        have led : gap ++ afterOpening ≠ [] := by
          simpa [shape, Bindings.opening] using apart gap mark
        exact clauseSpecifiers_listed (leads_type_opening led) first others afterLast trailing
          vacant free
      | .grouped (.whole ..) => simp [shape, Bindings.opening] at opened
      | .single _ => simp [shape, Bindings.opening] at opened
      | .both .. => simp [shape, Bindings.opening] at opened
    · exact clauseSpecifiers_bindings (leads_word (isWord_identifier (by decide)) touching)
        bindingsPlain vacant free

end ImportAudit.Import
