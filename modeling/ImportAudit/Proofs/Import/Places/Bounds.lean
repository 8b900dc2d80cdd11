import ImportAudit.Proofs.Import.ByteScan
import ImportAudit.Proofs.Import.StatementScan

/-!
# The scan stays inside its source

Whatever bytes a source is made of, no step of the statement scan looks outside of it, each step
over something that is there comes to a later place, and every loop ends. What is read in this way
are the clauses whose specifiers the statement scan gives.
-/

namespace ImportAudit.Import

open ImportAudit.Text

/-- A step from a place comes to a later place of the text, or to its end. -/
def Advances (text : List Char) (place : Nat) (next? : Option Nat) : Prop :=
  ∃ next, next? = some next ∧ place < next ∧ next ≤ text.length

/-- A step from a place comes to no earlier place of the text. -/
def Remains (text : List Char) (place : Nat) (next? : Option Nat) : Prop :=
  ∃ next, next? = some next ∧ place ≤ next ∧ next ≤ text.length

/-- Every step of the scan over a text stays inside the text, and the walk comes to its end. -/
structure StaysInside (text : List Char) : Prop where
  line : ∀ place < text.length, Advances text place (lineEnd? text place)
  block : ∀ place, text[place]? = some '/' → peek text (place + 1) = '*' →
    Advances text place (blockEnd? text place)
  literal : ∀ place < text.length, Advances text place (literalEnd? text place)
  word : ∀ place c, text[place]? = some c → isWordStart c = true →
    Advances text place (wordEnd? text place)
  blanks : ∀ place ≤ text.length, Remains text place (blanksEnd? text place)
  terminator : ∀ place ≤ text.length, Remains text place (terminatorEnd? text place)
  statement : ∀ place ≤ text.length, Remains text place (statementEnd? text place)
  clause : ∀ place ≤ text.length, Remains text place ((importEnd? text place).map Stretch.stop)
  walk : clauses? text = some (clausesOf false text)

variable {text rest tail : List Char} {place : Nat}

theorem advances_of_shorter (here : At text place rest) (shorter : tail.length < rest.length) :
    Advances text place (some (placeOf text tail)) := by
  have whole := here.length
  refine ⟨_, rfl, ?_, Nat.sub_le _ _⟩
  unfold placeOf
  omega

theorem remains_of_le (here : At text place rest) (noLonger : tail.length ≤ rest.length) :
    Remains text place (some (placeOf text tail)) := by
  have whole := here.length
  refine ⟨_, rfl, ?_, Nat.sub_le _ _⟩
  unfold placeOf
  omega

theorem exists_at_of_look {c : Char} (look : text[place]? = some c) :
    ∃ rest, At text place (c :: rest) := by
  obtain ⟨inside, same⟩ := List.getElem?_eq_some_iff.mp look
  obtain ⟨first, rest, here⟩ := exists_at_cons inside
  exact ⟨rest, Option.some.inj (look.symm.trans here.look) ▸ here⟩

/-- No reader of the scan leaves the source, wherever it starts in it. -/
theorem staysInside (text : List Char) : StaysInside text where
  line place inside := by
    obtain ⟨c, rest, here⟩ := exists_at_cons inside
    rw [lineEnd?_at here]
    refine advances_of_shorter here ?_
    rw [afterLine]
    split
    · exact Nat.lt_succ_self _
    · exact Nat.lt_succ_of_le (length_afterLine_le rest)
  block place slash star := by
    obtain ⟨rest, here⟩ := exists_at_of_look slash
    obtain ⟨tail, shape⟩ := (here.opens_iff (by decide)).mp ⟨rfl, star⟩
    rw [shape] at here
    obtain ⟨next, ended, there, shorter⟩ := blockEnd?_comment here
    rw [ended, ← there.placeOf_eq]
    exact advances_of_shorter here shorter
  literal place inside := by
    obtain ⟨c, rest, here⟩ := exists_at_cons inside
    rw [literalEnd?_at here]
    exact advances_of_shorter here (Nat.lt_succ_of_le (length_afterLiteral_le c rest))
  word place c look start := by
    obtain ⟨rest, here⟩ := exists_at_of_look look
    rw [wordEnd?_at here]
    exact advances_of_shorter here (length_afterWord_lt rest start)
  blanks place inside := by
    rw [blanksEnd?_at (at_drop inside)]
    exact remains_of_le (at_drop inside) (length_skipBlanks_le _)
  terminator place inside := by
    rw [terminatorEnd?_at (at_drop inside)]
    exact remains_of_le (at_drop inside) (length_skipTerminator_le _)
  statement place inside := by
    rw [statementEnd?_at (at_drop inside)]
    exact remains_of_le (at_drop inside) (length_afterStatement_le _)
  clause place inside := by
    rw [importEnd?_at (at_drop inside)]
    exact remains_of_le (at_drop inside) (length_readImport_le _)
  walk := clauses?_eq text

theorem importNames_statement_eq (source : String) :
    importNames .statement source =
      ((clausesOf false (Source.unifyBreaks source.toList)).flatMap clauseSpecifiers).map
        String.ofList := by
  rw [importNames, scanStatements, walk_eq_flatMap]

/-- The scan stays inside every source, whatever its bytes, as they are and with their line breaks
unified. It ends, and what it reads from the bytes of a string are the bytes of the clauses that
the specifiers of the string come from. -/
theorem scan_staysInside :
    (∀ source : List UInt8,
      StaysInside (octets source) ∧ StaysInside (Source.unifyBreaks (octets source))) ∧
    ∀ source : String, ∃ clauses : List (List Char),
      clauses? (Source.unifyBreaks (octets (bytesOf source))) =
        some (clauses.map fun clause => octets (bytes clause)) ∧
      importNames .statement source = (clauses.flatMap clauseSpecifiers).map String.ofList := by
  refine ⟨fun source => ⟨staysInside _, staysInside _⟩, fun source => ?_⟩
  refine ⟨clausesOf false (Source.unifyBreaks source.toList), ?_, importNames_statement_eq source⟩
  have sameBreaks : Source.unifyBreaks (octets (bytesOf source)) =
      encoded (Source.unifyBreaks source.toList) := by
    rw [bytesOf_eq]
    exact unifyBreaks_encoded source.toList
  rw [sameBreaks, clauses?_eq, clausesOf_encoded]
  rfl

/-- A literal that ends with a backslash, a comment and a brace that are not closed: every step
stops at the end of the source, and the clause goes that far. -/
theorem scan_staysInside_unclosed :
    literalEnd? (octets [0x27, 0x5C]) 0 = some 2 ∧
      Advances (octets [0x27, 0x5C]) 0 (literalEnd? (octets [0x27, 0x5C]) 0) ∧
      clauses? (Source.unifyBreaks (octets (bytesOf "import \x7bé /*"))) =
        some [octets (bytes "\x7bé  ".toList)] ∧
      ∃ clauses : List (List Char),
        clauses? (Source.unifyBreaks (octets (bytesOf "import \x7bé /*"))) =
          some (clauses.map fun clause => octets (bytes clause)) ∧
        importNames .statement "import \x7bé /*" =
          (clauses.flatMap clauseSpecifiers).map String.ofList := by
  obtain ⟨inside, strings⟩ := scan_staysInside
  refine ⟨by decide, (inside [0x27, 0x5C]).1.literal 0 (by decide), ?_, strings "import \x7bé /*"⟩
  rw [bytesOf_eq]
  decide

end ImportAudit.Import
