import ImportAudit.Proofs.Import.ClauseReading
import ImportAudit.Proofs.Import.Places.Lexeme
import ImportAudit.Proofs.Import.WalkClauses

/-!
# Clauses by places

An import statement read from place to place, behind the word `import`. The reading gives the
clause that the scan over rests gives, and stops where the rest of that scan starts.
-/

namespace ImportAudit.Import

open ImportAudit.Text (isWordStart isWordChar)

/-- The place behind the quoted module name after `from`, if there is one, and the terminator. -/
def moduleEnd? (text : List Char) (place : Nat) : Option Nat := do
  let origin ← blanksEnd? text place
  let behind ← inspect? text origin origin fun c =>
    if isQuote c then literalEnd? text origin else some origin
  terminatorEnd? text behind

/-- Where the reading of a clause is: the place, how many braces are open, and what is written. -/
structure ClauseState where
  place : Nat
  depth : Nat
  written : List Char

/-- The text of a clause and the place behind its statement. -/
structure Stretch where
  text : List Char
  stop : Nat
  deriving DecidableEq

/-- What the reader of clauses does at one place: it ends, or goes on behind what it read there. -/
def clauseTurn? (text : List Char) (state : ClauseState) : Option (Turn ClauseState Stretch) :=
  let ⟨place, depth, written⟩ := state
  inspect? text place (.done ⟨written, place⟩) fun c =>
    if c = '/' ∧ peek text (place + 1) = '/' then do
      let next ← lineEnd? text place
      some (.onward ⟨next, depth, written ++ [' ']⟩)
    else if c = '/' ∧ peek text (place + 1) = '*' then do
      let next ← blockEnd? text place
      some (.onward ⟨next, depth, written ++ [' ']⟩)
    else if c = '{' then some (.onward ⟨place + 1, depth + 1, written ++ [c]⟩)
    else if c = '}' then some (.onward ⟨place + 1, depth - 1, written ++ [c]⟩)
    else if depth = 0 && c = ';' then some (.done ⟨written, place + 1⟩)
    else if depth = 0 && c = '=' then do
      let stop ← statementEnd? text place
      some (.done ⟨written, stop⟩)
    else if depth = 0 && isQuote c then do
      let behind ← literalEnd? text place
      let stop ← terminatorEnd? text behind
      some (.done ⟨written, stop⟩)
    else if isWordStart c then do
      let next ← wordEnd? text place
      let word ← between? text place next
      if depth = 0 && word = "from".toList then do
        let stop ← moduleEnd? text next
        some (.done ⟨written, stop⟩)
      else some (.onward ⟨next, depth, written ++ word⟩)
    else some (.onward ⟨place + 1, depth, written ++ [c]⟩)

/-- Reads what follows the word `import` at a place. -/
def importEnd? (text : List Char) (place : Nat) : Option Stretch := do
  let start ← blanksEnd? text place
  inspect? text start ⟨[], start⟩ fun c =>
    if c = '(' || c = '.' || c = ':' then some ⟨[], start⟩
    else if isQuote c then do
      let stop ← literalEnd? text start
      some ⟨[], stop⟩
    else travel? text (clauseTurn? text) ⟨start, 0, []⟩

variable {text rest tail : List Char} {place : Nat} {c : Char}

/-! ## Clauses at a place -/

/-- The module name behind `from` ends where the reading over lists ends it. -/
theorem moduleEnd?_at (here : At text place rest) :
    moduleEnd? text place = some (placeOf text (skipModule rest)) := by
  have there := here.later (skipBlanks_suffix rest)
  rw [moduleEnd?, blanksEnd?_at here, Option.bind_eq_bind, Option.bind_some, skipModule]
  cases found : skipBlanks rest with
  | nil =>
    rw [found] at there
    rw [there.inspect_nil]
    exact terminatorEnd?_at there
  | cons c tail =>
    rw [found] at there
    rw [there.inspect_cons]
    by_cases quoted : isQuote c = true
    · have behind := there.next.later (afterLiteral_suffix c tail)
      rw [if_pos quoted, literalEnd?_at there]
      simpa [quoted] using terminatorEnd?_at behind
    · rw [if_neg quoted]
      simpa [quoted] using terminatorEnd?_at there

/-- The course of the reading of a clause: what is written comes in front of what is read. -/
def clauseCourse (text : List Char) : Course ClauseState Stretch where
  inside state := state.place ≤ text.length
  left state := text.length - state.place
  value state :=
    let clause := readClause state.depth (text.drop state.place)
    ⟨state.written ++ clause.text, placeOf text clause.rest⟩

section Reading

variable {depth : Nat} {written : List Char}

theorem clause_done
    (here : At text place rest) {behind : List Char} {stop : Nat}
    (read : readClause depth rest = ⟨[], behind⟩) (stops : placeOf text behind = stop) :
    (Turn.done ⟨written, stop⟩).Keeps (clauseCourse text) ⟨place, depth, written⟩ := by
  simp only [Turn.Keeps, clauseCourse, here.drop, read, stops, List.append_nil]

theorem clause_onward
    (here : At text place rest) {next laterDepth : Nat} (later : At text next tail)
    (shorter : tail.length < rest.length) {front : List Char}
    (read : readClause depth rest = (readClause laterDepth tail).prepend front) :
    (Turn.onward ⟨next, laterDepth, written ++ front⟩).Keeps (clauseCourse text)
      ⟨place, depth, written⟩ := by
  have whole := here.length
  have laterWhole := later.length
  refine ⟨later.inside, ?_, ?_⟩
  · simp only [clauseCourse]
    omega
  · simp only [clauseCourse, later.drop, here.drop, read, Clause.prepend, List.append_assoc]

/-- One turn of the reader of clauses does what the reading over lists does with one lexeme. -/
theorem clauseTurn?_keeps (here : At text place rest) :
    ∃ turn, clauseTurn? text ⟨place, depth, written⟩ = some turn ∧
      turn.Keeps (clauseCourse text) ⟨place, depth, written⟩ := by
  unfold clauseTurn?
  cases rest with
  | nil =>
    refine ⟨_, here.inspect_nil _ _, clause_done here ?_ here.placeOf_eq⟩
    rw [readClause]
  | cons c rest =>
    have nextIsShorter : rest.length < (c :: rest).length := Nat.lt_succ_self _
    dsimp only
    rw [here.inspect_cons]
    by_cases line : c = '/' ∧ peek text (place + 1) = '/'
    · obtain ⟨tail, shape⟩ := (here.opens_iff (by decide)).mp line
      rw [shape] at here
      obtain ⟨next, ended, there, shorter⟩ := lineEnd?_comment here
      rw [if_pos line, ended]
      exact ⟨_, rfl, clause_onward here there shorter (by rw [readClause])⟩
    by_cases block : c = '/' ∧ peek text (place + 1) = '*'
    · obtain ⟨tail, shape⟩ := (here.opens_iff (by decide)).mp block
      rw [shape] at here
      obtain ⟨next, ended, there, shorter⟩ := blockEnd?_comment here
      rw [if_neg line, if_pos block, ended]
      exact ⟨_, rfl, clause_onward here there shorter (by rw [readClause])⟩
    rw [if_neg line, if_neg block]
    have equation := readClause_plain (here.opensNone line block) depth
    split_ifs at equation ⊢ with opening closing semicolon equals quoted start isFrom
    · exact ⟨_, rfl, clause_onward here here.next nextIsShorter equation⟩
    · exact ⟨_, rfl, clause_onward here here.next nextIsShorter equation⟩
    · exact ⟨_, rfl, clause_done here equation here.next.placeOf_eq⟩
    · have isEquals : c = '=' := by simp_all
      have passed : afterStatement (c :: rest) = afterStatement rest := by
        simp [afterStatement, isEquals]
      rw [statementEnd?_at here, passed]
      exact ⟨_, rfl, clause_done here equation rfl⟩
    · have behind := here.next.later (afterLiteral_suffix c rest)
      rw [literalEnd?_at here, Option.bind_eq_bind, Option.bind_some, terminatorEnd?_at behind]
      exact ⟨_, rfl, clause_done here equation rfl⟩
    · rw [wordEnd?_at here, Option.bind_eq_bind, Option.bind_some, between?_word here,
        Option.bind_eq_bind, Option.bind_some, if_pos isFrom, moduleEnd?_at here.behindWord]
      exact ⟨_, rfl, clause_done here equation rfl⟩
    · rw [wordEnd?_at here, Option.bind_eq_bind, Option.bind_some, between?_word here,
        Option.bind_eq_bind, Option.bind_some, if_neg isFrom]
      exact ⟨_, rfl, clause_onward here here.behindWord (length_afterWord_lt rest start) equation⟩
    · exact ⟨_, rfl, clause_onward here here.next nextIsShorter equation⟩

theorem readClauseFrom?_at (here : At text place rest) :
    travel? text (clauseTurn? text) ⟨place, 0, []⟩ =
      some ⟨(readClause 0 rest).text, placeOf text (readClause 0 rest).rest⟩ := by
  have turns : ∀ state, (clauseCourse text).inside state →
      ∃ turn, clauseTurn? text state = some turn ∧ turn.Keeps (clauseCourse text) state :=
    fun state inside => clauseTurn?_keeps (at_drop inside)
  have inside : (clauseCourse text).inside ⟨place, 0, []⟩ := here.inside
  rw [travel?_eq turns inside (Nat.sub_le _ _)]
  simp only [clauseCourse, here.drop, List.nil_append]

/-- Reading what follows the word `import` stops where the rest of the scan over rests starts. -/
theorem importEnd?_at (here : At text place rest) :
    importEnd? text place = some ⟨(readImport rest).text, placeOf text (readImport rest).rest⟩ := by
  have there := here.later (skipBlanks_suffix rest)
  rw [importEnd?, blanksEnd?_at here, Option.bind_eq_bind, Option.bind_some, readImport]
  cases found : skipBlanks rest with
  | nil =>
    rw [found] at there
    rw [there.inspect_nil]
  | cons c tail =>
    rw [found] at there
    rw [there.inspect_cons]
    dsimp only
    split_ifs with sign quoted
    · rfl
    · rw [literalEnd?_at there]
      rfl
    · exact readClauseFrom?_at there

end Reading

end ImportAudit.Import
