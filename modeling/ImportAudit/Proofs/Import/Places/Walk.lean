import ImportAudit.Proofs.Import.Places.Clause

/-!
# The walk by places

The walk over a source from place to place. Where a word stands, the character in front of it is
looked at. The walk always comes to the end of the text, and reads the clauses that the walk over
rests reads.
-/

namespace ImportAudit.Import

open ImportAudit.Text (isWordStart isWordChar)

/-- Whether the text from one place up to another is the word `import` and stands by itself. -/
def isImport? (text : List Char) (start stop : Nat) : Option Bool := do
  let word ← between? text start stop
  if word = "import".toList then
    if 0 < start then text[start - 1]?.map fun c => !attaches c else some true
  else some false

/-- Where the walk is: the place, and the clauses that have been read. -/
structure WalkState where
  place : Nat
  clauses : List (List Char)

/-- What the walk does at one place: it ends, or goes on behind what it read there. -/
def walkTurn? (text : List Char) (state : WalkState) :
    Option (Turn WalkState (List (List Char))) :=
  let ⟨place, clauses⟩ := state
  inspect? text place (.done clauses) fun c =>
    if c = '/' ∧ peek text (place + 1) = '/' then do
      let next ← lineEnd? text place
      some (.onward ⟨next, clauses⟩)
    else if c = '/' ∧ peek text (place + 1) = '*' then do
      let next ← blockEnd? text place
      some (.onward ⟨next, clauses⟩)
    else if isQuote c then do
      let next ← literalEnd? text place
      some (.onward ⟨next, clauses⟩)
    else if isWordStart c then do
      let next ← wordEnd? text place
      let isImport ← isImport? text place next
      if isImport then do
        let clause ← importEnd? text next
        some (.onward ⟨clause.stop, clauses ++ [clause.text]⟩)
      else some (.onward ⟨next, clauses⟩)
    else some (.onward ⟨place + 1, clauses⟩)

/-- The clauses of a text whose line breaks are line feeds, read from place to place. -/
def clauses? (text : List Char) : Option (List (List Char)) :=
  travel? text (walkTurn? text) ⟨0, []⟩

variable {text rest tail : List Char} {place : Nat} {c : Char}

/-! ## The look back -/

/-- Whether the character in front of a place attaches to the one there. -/
def gluedAt (text : List Char) (place : Nat) : Bool :=
  place != 0 && text[place - 1]?.any attaches

theorem gluedAt_next (here : At text place (c :: rest)) :
    gluedAt text (place + 1) = attaches c := by
  simp [gluedAt, here.look]

theorem clausesOf_gluedAt {stop : Nat} (there : At text stop tail) (fresh : Fresh text tail) :
    clausesOf (gluedAt text stop) tail = clausesOf false tail := by
  rcases fresh with noWord | ⟨front, c, whole, free⟩
  · exact clausesOf_noWord noWord _ _
  · have inFront : At text front.length (c :: tail) :=
      ⟨by simp [whole], by rw [whole, List.drop_left]⟩
    have same : stop = front.length + 1 := there.placeOf_eq.symm.trans inFront.next.placeOf_eq
    rw [same, gluedAt_next inFront, free]

theorem isImport?_at (here : At text place (c :: rest)) :
    isImport? text place (placeOf text (afterWord (c :: rest))) =
      some (wordOf (c :: rest) = "import".toList && !gluedAt text place) := by
  rw [isImport?, between?_word here, Option.bind_eq_bind, Option.bind_some]
  by_cases keyword : wordOf (c :: rest) = "import".toList
  · rw [if_pos keyword]
    by_cases first : 0 < place
    · have inside : place - 1 < text.length := by
        have whole := here.length
        omega
      have notFirst : place ≠ 0 := by omega
      simp [first, notFirst, keyword, gluedAt, List.getElem?_eq_getElem inside]
    · have isFirst : place = 0 := by omega
      simp [keyword, gluedAt, isFirst]
  · rw [if_neg keyword, decide_eq_false keyword, Bool.false_and]

/-! ## The walk -/

/-- The course of the walk: what has been read comes in front of what is left to read. -/
def walkCourse (text : List Char) : Course WalkState (List (List Char)) where
  inside state := state.place ≤ text.length
  left state := text.length - state.place
  value state :=
    state.clauses ++ clausesOf (gluedAt text state.place) (text.drop state.place)

variable {clauses : List (List Char)}

theorem walk_onward
    (here : At text place rest) {next : Nat} (later : At text next tail)
    (shorter : tail.length < rest.length) {read : List (List Char)}
    (same : clausesOf (gluedAt text place) rest = read ++ clausesOf (gluedAt text next) tail) :
    (Turn.onward ⟨next, clauses ++ read⟩).Keeps (walkCourse text) ⟨place, clauses⟩ := by
  have whole := here.length
  have laterWhole := later.length
  refine ⟨later.inside, ?_, ?_⟩
  · simp only [walkCourse]
    omega
  · simp only [walkCourse, later.drop, here.drop, same, List.append_assoc]

theorem walk_onward_silent
    (here : At text place rest) {next : Nat} (later : At text next tail)
    (shorter : tail.length < rest.length)
    (same : clausesOf (gluedAt text place) rest = clausesOf (gluedAt text next) tail) :
    (Turn.onward ⟨next, clauses⟩).Keeps (walkCourse text) ⟨place, clauses⟩ := by
  have silent :
      (Turn.onward ⟨next, clauses ++ []⟩).Keeps (walkCourse text) ⟨place, clauses⟩ :=
    walk_onward here later shorter same
  rwa [List.append_nil] at silent

theorem clausesOf_plain (plain : OpensNone c rest) (glued : Bool) :
    clausesOf glued (c :: rest) =
      if isQuote c then clausesOf false (afterLiteral c rest)
      else if isWordStart c then
        if wordOf (c :: rest) = "import".toList && !glued then
          (readImport (afterWord (c :: rest))).text ::
            clausesOf false (readImport (afterWord (c :: rest))).rest
        else clausesOf false (afterWord (c :: rest))
      else clausesOf (attaches c) rest := by
  rw [clausesOf.eq_4 _ _ _ (fun tail slash shape => (plain slash tail).1 shape)
    (fun tail slash shape => (plain slash tail).2 shape)]
  rfl

/-- One turn of the walk does what the walk over lists does with one lexeme. -/
theorem walkTurn?_keeps (here : At text place rest) :
    ∃ turn, walkTurn? text ⟨place, clauses⟩ = some turn ∧
      turn.Keeps (walkCourse text) ⟨place, clauses⟩ := by
  unfold walkTurn?
  cases rest with
  | nil =>
    refine ⟨_, here.inspect_nil _ _, ?_⟩
    simp [Turn.Keeps, walkCourse, here.drop, clausesOf]
  | cons c rest =>
    dsimp only
    rw [here.inspect_cons]
    by_cases line : c = '/' ∧ peek text (place + 1) = '/'
    · obtain ⟨tail, shape⟩ := (here.opens_iff (by decide)).mp line
      rw [shape] at here
      obtain ⟨next, ended, there, shorter⟩ := lineEnd?_comment here
      have fresh : Fresh text (afterLine tail) :=
        fresh_afterLine (List.IsSuffix.trans ⟨['/', '/'], rfl⟩ here.suffix)
      rw [if_pos line, ended]
      refine ⟨_, rfl, walk_onward_silent here there shorter ?_⟩
      rw [clausesOf, clausesOf_gluedAt there fresh]
    by_cases block : c = '/' ∧ peek text (place + 1) = '*'
    · obtain ⟨tail, shape⟩ := (here.opens_iff (by decide)).mp block
      rw [shape] at here
      obtain ⟨next, ended, there, shorter⟩ := blockEnd?_comment here
      have fresh : Fresh text (afterBlock tail) :=
        fresh_afterBlock (List.IsSuffix.trans ⟨['/', '*'], rfl⟩ here.suffix)
      rw [if_neg line, if_pos block, ended]
      refine ⟨_, rfl, walk_onward_silent here there shorter ?_⟩
      rw [clausesOf, clausesOf_gluedAt there fresh]
    rw [if_neg line, if_neg block]
    have equation := clausesOf_plain (here.opensNone line block) (gluedAt text place)
    split_ifs at equation ⊢ with quoted start keyword
    · have there := here.next.later (afterLiteral_suffix c rest)
      rw [literalEnd?_at here]
      refine ⟨_, rfl, walk_onward_silent here there ?_ ?_⟩
      · exact Nat.lt_succ_of_le (length_afterLiteral_le c rest)
      · rw [equation, clausesOf_gluedAt there (fresh_afterLiteral quoted here.next.suffix)]
    · have there := here.behindWord.later (readImport_suffix _)
      rw [wordEnd?_at here, Option.bind_eq_bind, Option.bind_some, isImport?_at here,
        Option.bind_eq_bind, Option.bind_some, if_pos keyword, importEnd?_at here.behindWord]
      refine ⟨_, rfl, walk_onward here there ?_ ?_⟩
      · exact Nat.lt_of_le_of_lt (length_readImport_le _) (length_afterWord_lt rest start)
      · rw [equation, clausesOf_gluedAt there (fresh_readImport here.behindWord.suffix)]
        rfl
    · rw [wordEnd?_at here, Option.bind_eq_bind, Option.bind_some, isImport?_at here,
        Option.bind_eq_bind, Option.bind_some, if_neg keyword]
      refine ⟨_, rfl, walk_onward_silent here here.behindWord (length_afterWord_lt rest start) ?_⟩
      rw [equation, clausesOf_gluedAt here.behindWord (fresh_afterWord text _)]
    · refine ⟨_, rfl, walk_onward_silent here here.next (Nat.lt_succ_self _) ?_⟩
      rw [equation, gluedAt_next here]

/-- The walk by places always ends, and reads the clauses of the walk. -/
theorem clauses?_eq (text : List Char) : clauses? text = some (clausesOf false text) := by
  have turns : ∀ state, (walkCourse text).inside state →
      ∃ turn, walkTurn? text state = some turn ∧ turn.Keeps (walkCourse text) state :=
    fun state inside => walkTurn?_keeps (at_drop inside)
  have inside : (walkCourse text).inside ⟨0, []⟩ := Nat.zero_le _
  rw [clauses?, travel?_eq turns inside (Nat.sub_le _ _)]
  simp [walkCourse, gluedAt]

end ImportAudit.Import
