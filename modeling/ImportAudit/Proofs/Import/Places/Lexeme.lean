import ImportAudit.Proofs.Import.ModeAgreement
import ImportAudit.Proofs.Import.Places.Looks

/-!
# Lexical elements by places

The lexical elements of source text, stepped over from place to place. Each step ends at the place
where the rest starts that the scan over rests leaves, whatever the text holds.
-/

namespace ImportAudit.Import

open ImportAudit.Text (isWordStart isWordChar)

def indexOf? (part : List Char) : List Char → Option Nat
  | [] => if part.isEmpty then some 0 else none
  | c :: rest =>
    if part.isPrefixOf (c :: rest) then some 0 else (indexOf? part rest).map (· + 1)

def lineEnd? (text : List Char) (place : Nat) : Option Nat := do
  let rest ← behind? text place
  match indexOf? ['\n'] rest with
  | some ahead => some (place + ahead + 1)
  | none => some text.length

/-- The place behind the block comment that starts at a place. -/
def blockEnd? (text : List Char) (place : Nat) : Option Nat := do
  let rest ← behind? text (place + 2)
  match indexOf? ['*', '/'] rest with
  | some ahead => some (place + 2 + ahead + 2)
  | none => some text.length

def literalTurn? (text : List Char) (quote : Char) (place : Nat) : Option (Turn Nat Nat) :=
  inspect? text place (.done text.length) fun c =>
    if c = '\\' then some (.onward (place + 2))
    else if c = quote then some (.done (place + 1))
    else if c = '\n' && quote != '\x60' then some (.done place)
    else some (.onward (place + 1))

def literalEnd? (text : List Char) (place : Nat) : Option Nat := do
  let quote ← text[place]?
  travel? text (literalTurn? text quote) (place + 1)

def passTurn? (test : Char → Bool) (text : List Char) (place : Nat) : Option (Turn Nat Nat) :=
  inspect? text place (.done place) fun c =>
    if test c then some (.onward (place + 1)) else some (.done place)

/-- The first place from a place on whose character fails a test, or the end. -/
def passEnd? (test : Char → Bool) (text : List Char) (place : Nat) : Option Nat :=
  travel? text (passTurn? test text) place

def wordEnd? (text : List Char) (place : Nat) : Option Nat :=
  passEnd? isWordChar text place

def blanksTurn? (text : List Char) (place : Nat) : Option (Turn Nat Nat) :=
  inspect? text place (.done place) fun c =>
    if c = ' ' || c = '\t' || c = '\n' || c = '\r' then some (.onward (place + 1))
    else if c = '/' ∧ peek text (place + 1) = '/' then (lineEnd? text place).map .onward
    else if c = '/' ∧ peek text (place + 1) = '*' then (blockEnd? text place).map .onward
    else some (.done place)

/-- The place behind blanks, line breaks and comments. -/
def blanksEnd? (text : List Char) (place : Nat) : Option Nat :=
  travel? text (blanksTurn? text) place

/-- The place behind a `;` with only spaces and tabs in front of it; without a `;` the place
stays. -/
def terminatorEnd? (text : List Char) (place : Nat) : Option Nat := do
  let next ← passEnd? (fun c => c == ' ' || c == '\t') text place
  inspect? text next place fun c => if c = ';' then some (next + 1) else some place

def statementTurn? (text : List Char) (place : Nat) : Option (Turn Nat Nat) :=
  inspect? text place (.done place) fun c =>
    if c = ';' || c = '\n' then some (.done (place + 1)) else some (.onward (place + 1))

def statementEnd? (text : List Char) (place : Nat) : Option Nat :=
  travel? text (statementTurn? text) place

variable {text rest : List Char} {place : Nat} {c : Char}

/-! ## Lexical elements at a place -/

theorem indexOf?_le
    {part text : List Char} {ahead : Nat} (found : indexOf? part text = some ahead) :
    ahead + part.length ≤ text.length := by
  fun_induction indexOf? part text generalizing ahead with
  | case1 empty =>
    cases found
    simp [List.isEmpty_iff.mp empty]
  | case2 => cases found
  | case3 c rest starts =>
    cases found
    simpa using (List.isPrefixOf_iff_prefix.mp starts).length_le
  | case4 c rest _ inductionHypothesis =>
    obtain ⟨later, foundLater, rfl⟩ := Option.map_eq_some_iff.mp found
    have fits := inductionHypothesis foundLater
    rw [List.length_cons]
    omega

theorem afterLine_eq (text : List Char) :
    afterLine text = (indexOf? ['\n'] text).elim [] fun ahead => text.drop (ahead + 1) := by
  induction text with
  | nil => rfl
  | cons c rest inductionHypothesis =>
    by_cases lineBreak : c = '\n'
    · simp [afterLine, indexOf?, lineBreak]
    · rw [afterLine, if_neg lineBreak, inductionHypothesis]
      simp [indexOf?, Ne.symm lineBreak, Option.elim_map, Function.comp_def]

theorem afterBlock_eq (text : List Char) :
    afterBlock text = (indexOf? ['*', '/'] text).elim [] fun ahead => text.drop (ahead + 2) := by
  fun_induction afterBlock text with
  | case1 => rfl
  | case2 rest => simp [indexOf?]
  | case3 c rest unclosed inductionHypothesis =>
    have notHere : ¬ ['*', '/'] <+: c :: rest := by
      rintro ⟨tail, whole⟩
      obtain ⟨same, others⟩ := List.cons.inj whole
      exact unclosed tail same.symm others.symm
    rw [← List.isPrefixOf_iff_prefix] at notHere
    rw [indexOf?, if_neg notHere, inductionHypothesis, Option.elim_map]
    rfl

theorem lineEnd?_at (here : At text place rest) :
    lineEnd? text place = some (placeOf text (afterLine rest)) := by
  rw [lineEnd?, here.behind, afterLine_eq]
  cases found : indexOf? ['\n'] rest with
  | none => simp [placeOf, found]
  | some ahead =>
    have start := (here.ahead (indexOf?_le found)).placeOf_eq
    rw [List.length_singleton] at start
    simp [found, start, Nat.add_assoc]

theorem blockEnd?_at (here : At text place ('/' :: '*' :: rest)) :
    blockEnd? text place = some (placeOf text (afterBlock rest)) := by
  have inner : At text (place + 2) rest := here.next.next
  rw [blockEnd?, inner.behind, afterBlock_eq]
  cases found : indexOf? ['*', '/'] rest with
  | none => simp [placeOf, found]
  | some ahead =>
    have start := (inner.ahead (indexOf?_le found)).placeOf_eq
    simp only [List.length_cons, List.length_nil] at start
    simp [found, start, Nat.add_assoc]

theorem afterLiteral_backslash (quote : Char) (rest : List Char) :
    afterLiteral quote ('\\' :: rest) = afterLiteral quote (rest.drop 1) := by
  cases rest <;> simp [afterLiteral]

theorem afterLiteral_cons (quote : Char) (plain : c ≠ '\\') (rest : List Char) :
    afterLiteral quote (c :: rest) =
      if c = quote then rest
      else if c = '\n' && quote != '\x60' then c :: rest
      else afterLiteral quote rest := by
  simp [afterLiteral, plain]

/-- The course of a literal. A backslash at the very end leads beyond the text. -/
def literalCourse (text : List Char) (quote : Char) : Course Nat Nat :=
  { placeCourse text (afterLiteral quote) with inside := fun _ => True }

/-- One turn of the reader of literals does what the reading over lists does with one character. -/
theorem literalTurn?_keeps (text : List Char) (quote : Char) (place : Nat) :
    ∃ turn, literalTurn? text quote place = some turn ∧
      turn.Keeps (literalCourse text quote) place := by
  have onward (next : Nat) (inside : place < text.length) (later : place < next)
      (same : afterLiteral quote (text.drop next) = afterLiteral quote (text.drop place)) :
      (Turn.onward next).Keeps (literalCourse text quote) place :=
    ⟨trivial, Nat.sub_lt_sub_left inside later, congrArg (placeOf text) same⟩
  rcases Nat.lt_or_ge place text.length with inside | atEnd
  · obtain ⟨c, rest, here⟩ := exists_at_cons inside
    rw [literalTurn?, here.inspect_cons]
    split_ifs with backslash closing lineBreak
    · refine ⟨_, rfl, onward _ inside (by omega) ?_⟩
      rw [here.drop, backslash, afterLiteral_backslash, ← here.next.drop, List.drop_drop]
    · refine ⟨_, rfl, keeps_done here ?_⟩
      rw [afterLiteral_cons quote backslash, if_pos closing, here.next.placeOf_eq]
    · refine ⟨_, rfl, keeps_done here ?_⟩
      rw [afterLiteral_cons quote backslash, if_neg closing, if_pos lineBreak, here.placeOf_eq]
    · refine ⟨_, rfl, onward _ inside (by omega) ?_⟩
      rw [here.drop, here.next.drop, afterLiteral_cons quote backslash, if_neg closing,
        if_neg lineBreak]
  · refine ⟨.done text.length, if_neg (Nat.not_lt.mpr atEnd), ?_⟩
    simp [Turn.Keeps, literalCourse, placeCourse, List.drop_eq_nil_of_le atEnd, afterLiteral,
      placeOf]

theorem literalEnd?_at (here : At text place (c :: rest)) :
    literalEnd? text place = some (placeOf text (afterLiteral c rest)) := by
  rw [literalEnd?, here.look, Option.bind_eq_bind, Option.bind_some,
    travel?_eq (fun place _ => literalTurn?_keeps text c place) trivial (Nat.sub_le _ _)]
  simp only [literalCourse, placeCourse, here.next.drop]

theorem passTurn?_keeps
    (test : Char → Bool) {place : Nat} {rest : List Char} (here : At text place rest) :
    ∃ turn, passTurn? test text place = some turn ∧
      turn.Keeps (placeCourse text (List.dropWhile test)) place := by
  unfold passTurn?
  cases rest with
  | nil => exact ⟨_, here.inspect_nil _ _, keeps_done here here.placeOf_eq⟩
  | cons c rest =>
    rw [here.inspect_cons]
    split_ifs with pass
    · refine ⟨_, rfl, keeps_onward here here.next (Nat.lt_succ_self _) ?_⟩
      rw [List.dropWhile_cons_of_pos pass]
    · refine ⟨_, rfl, keeps_done here ?_⟩
      rw [List.dropWhile_cons_of_neg pass, here.placeOf_eq]

theorem passEnd?_at (test : Char → Bool) (here : At text place rest) :
    passEnd? test text place = some (placeOf text (rest.dropWhile test)) :=
  travel?_at (passTurn?_keeps test) here

theorem wordEnd?_at (here : At text place rest) :
    wordEnd? text place = some (placeOf text (afterWord rest)) :=
  passEnd?_at isWordChar here

theorem At.behindWord (here : At text place rest) :
    At text (placeOf text (afterWord rest)) (afterWord rest) :=
  here.later (afterWord_suffix rest)

theorem between?_word (here : At text place rest) :
    between? text place (placeOf text (afterWord rest)) = some (wordOf rest) := by
  have parts : wordOf rest ++ afterWord rest = rest := List.takeWhile_append_dropWhile
  have cut : wordOf rest = rest.take (wordOf rest).length :=
    List.prefix_iff_eq_take.mp (List.takeWhile_prefix isWordChar)
  have whole := here.length
  have behind := here.behindWord.length
  have split := congrArg List.length parts
  rw [List.length_append] at split
  have distance : placeOf text (afterWord rest) - place = (wordOf rest).length := by omega
  rw [between?, if_pos ⟨by omega, by omega⟩, here.drop, distance, ← cut]

theorem lineEnd?_comment (here : At text place ('/' :: '/' :: rest)) :
    ∃ next, lineEnd? text place = some next ∧ At text next (afterLine rest) ∧
      (afterLine rest).length < ('/' :: '/' :: rest).length := by
  have passed : afterLine ('/' :: '/' :: rest) = afterLine rest := by simp [afterLine]
  have shorter := length_afterLine_le rest
  refine ⟨_, lineEnd?_at here, passed ▸ here.later (afterLine_suffix _), ?_⟩
  simp only [List.length_cons]
  omega

theorem blockEnd?_comment (here : At text place ('/' :: '*' :: rest)) :
    ∃ next, blockEnd? text place = some next ∧ At text next (afterBlock rest) ∧
      (afterBlock rest).length < ('/' :: '*' :: rest).length := by
  have shorter := length_afterBlock_le rest
  refine ⟨_, blockEnd?_at here, here.later ((afterBlock_suffix rest).trans ⟨['/', '*'], rfl⟩), ?_⟩
  simp only [List.length_cons]
  omega

/-- One turn of the reader of blanks does what the reading over lists does with one blank. -/
theorem blanksTurn?_keeps (here : At text place rest) :
    ∃ turn, blanksTurn? text place = some turn ∧
      turn.Keeps (placeCourse text skipBlanks) place := by
  unfold blanksTurn?
  cases rest with
  | nil => exact ⟨_, here.inspect_nil _ _, keeps_done here (by simp [skipBlanks, here.placeOf_eq])⟩
  | cons c rest =>
    rw [here.inspect_cons]
    split_ifs with blank line block
    · have plain : OpensNone c rest := by
        rintro rfl
        simp at blank
      refine ⟨_, rfl, keeps_onward here here.next (Nat.lt_succ_self _) ?_⟩
      rw [skipBlanks_cons plain, if_pos blank]
    · obtain ⟨tail, shape⟩ := (here.opens_iff (by decide)).mp line
      rw [shape] at here
      obtain ⟨next, ended, there, shorter⟩ := lineEnd?_comment here
      exact ⟨.onward next, by rw [ended]; rfl, keeps_onward here there shorter (by rw [skipBlanks])⟩
    · obtain ⟨tail, shape⟩ := (here.opens_iff (by decide)).mp block
      rw [shape] at here
      obtain ⟨next, ended, there, shorter⟩ := blockEnd?_comment here
      exact ⟨.onward next, by rw [ended]; rfl, keeps_onward here there shorter (by rw [skipBlanks])⟩
    · refine ⟨_, rfl, keeps_done here ?_⟩
      rw [skipBlanks_cons (here.opensNone line block), if_neg blank, here.placeOf_eq]

theorem blanksEnd?_at (here : At text place rest) :
    blanksEnd? text place = some (placeOf text (skipBlanks rest)) :=
  travel?_at blanksTurn?_keeps here

theorem terminatorEnd?_at (here : At text place rest) :
    terminatorEnd? text place = some (placeOf text (skipTerminator rest)) := by
  have there := here.later (List.dropWhile_suffix fun c => c == ' ' || c == '\t')
  rw [terminatorEnd?, passEnd?_at _ here, Option.bind_eq_bind, Option.bind_some, skipTerminator]
  split
  · rename_i tail found
    rw [found] at there ⊢
    rw [there.inspect_cons, if_pos rfl, there.next.placeOf_eq]
  · rename_i other
    rw [here.placeOf_eq]
    cases found : rest.dropWhile fun c => c == ' ' || c == '\t' with
    | nil =>
      rw [found] at there
      exact there.inspect_nil _ _
    | cons c tail =>
      have different : c ≠ ';' := by
        rintro rfl
        exact other tail found
      rw [found] at there
      rw [there.inspect_cons, if_neg different]

theorem statementTurn?_keeps (here : At text place rest) :
    ∃ turn, statementTurn? text place = some turn ∧
      turn.Keeps (placeCourse text afterStatement) place := by
  unfold statementTurn?
  cases rest with
  | nil => exact ⟨_, here.inspect_nil _ _, keeps_done here here.placeOf_eq⟩
  | cons c rest =>
    rw [here.inspect_cons]
    split_ifs with ends
    · exact ⟨_, rfl, keeps_done here (by rw [afterStatement, if_pos ends, here.next.placeOf_eq])⟩
    · refine ⟨_, rfl, keeps_onward here here.next (Nat.lt_succ_self _) ?_⟩
      rw [afterStatement, if_neg ends]

theorem statementEnd?_at (here : At text place rest) :
    statementEnd? text place = some (placeOf text (afterStatement rest)) :=
  travel?_at statementTurn?_keeps here

end ImportAudit.Import
