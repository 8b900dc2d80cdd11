import ImportAudit.Import.Lexeme

/-!
# Scans for imports

Two scans for import specifiers. The line scan reads single physical lines that start with
`import` and stops at the first line that starts with `const`, since imports stand before the first
value declaration; only the first line of a longer import is seen. The statement scan walks over
the whole source, steps over comments and literals, and reads every import statement to its
terminator, so import lists may span lines. Dynamic imports, `import.meta` and imports for effect
name nothing. Regular expression literals are not recognised.
-/

namespace ImportAudit.Import

open ImportAudit.Text (isWordStart isWordChar)

/-! ## The line scan -/

/-- Braces group specifiers and are never part of one. -/
def isBrace (c : Char) : Bool :=
  c == '{' || c == '}'

def dropBraces (text : List Char) : List Char :=
  text.filter fun c => !isBrace c

/-- What an import line names: the text before `from`, without the keyword and the braces. -/
def lineClause (line : List Char) : List Char :=
  Text.before "from".toList (dropBraces (Text.removeAll "import ".toList line))

def lineSpecifiers (line : List Char) : List (List Char) :=
  ((Text.pieces ',' (lineClause line)).map Text.trimChars).filter (!·.isEmpty)

/-- The lines that the scan looks at: those before the first value declaration. -/
def headerLines (lines : List (List Char)) : List (List Char) :=
  lines.takeWhile fun line => !("const".toList.isPrefixOf line)

/-- The specifiers of a source text by the line scan, in source order. -/
def scanLines (source : List Char) : List (List Char) :=
  ((headerLines (Source.lines source)).filter ("import".toList.isPrefixOf ·)).flatMap
    lineSpecifiers

/-! ## Clauses of statements -/

/-- The text of a clause together with the source that is left after its statement. -/
structure Clause where
  text : List Char
  rest : List Char

def Clause.prepend (front : List Char) (clause : Clause) : Clause :=
  { clause with text := front ++ clause.text }

/-- Consumes the quoted module name after `from`, if there is one, and the terminator. -/
def skipModule (text : List Char) : List Char :=
  match skipBlanks text with
  | c :: rest =>
    if isQuote c then skipTerminator (afterLiteral c rest) else skipTerminator (c :: rest)
  | [] => []

theorem length_skipModule_le (text : List Char) : (skipModule text).length ≤ text.length := by
  have blanks := length_skipBlanks_le text
  unfold skipModule
  split
  · rename_i head tail found
    rw [found] at blanks
    simp only [List.length_cons] at blanks
    split
    · have literal := length_afterLiteral_le head tail
      have terminator := length_skipTerminator_le (afterLiteral head tail)
      omega
    · have terminator := length_skipTerminator_le (head :: tail)
      simp only [List.length_cons] at terminator
      omega
  · simp

/-- Reads the clause of an import statement, `depth` braces deep. Outside braces the clause ends
at `;`, at `=`, at a quote and at the word `from`; a comment inside it counts as a space. A
clause that nothing ends reaches to the end of the source. -/
def readClause (depth : Nat) (text : List Char) : Clause :=
  match text with
  | [] => ⟨[], []⟩
  | '/' :: '/' :: rest => (readClause depth (afterLine rest)).prepend [' ']
  | '/' :: '*' :: rest => (readClause depth (afterBlock rest)).prepend [' ']
  | c :: rest =>
    if c = '{' then (readClause (depth + 1) rest).prepend [c]
    else if c = '}' then (readClause (depth - 1) rest).prepend [c]
    else if depth = 0 && c = ';' then ⟨[], rest⟩
    else if depth = 0 && c = '=' then ⟨[], afterStatement rest⟩
    else if depth = 0 && isQuote c then ⟨[], skipTerminator (afterLiteral c rest)⟩
    else if _start : isWordStart c then
      if depth = 0 && wordOf (c :: rest) = "from".toList then
        ⟨[], skipModule (afterWord (c :: rest))⟩
      else (readClause depth (afterWord (c :: rest))).prepend (wordOf (c :: rest))
    else (readClause depth rest).prepend [c]
termination_by text.length
decreasing_by
  · have := length_afterLine_le rest
    simp only [List.length_cons]; omega
  · have := length_afterBlock_le rest
    simp only [List.length_cons]; omega
  · simp
  · simp
  · exact length_afterWord_lt rest _start
  · simp

/-- Reads what follows the word `import`: nothing is named by a call, a member, an object key or
a module imported for effect; everything else starts a clause. -/
def readImport (text : List Char) : Clause :=
  match skipBlanks text with
  | [] => ⟨[], []⟩
  | c :: rest =>
    if c = '(' || c = '.' || c = ':' then ⟨[], c :: rest⟩
    else if isQuote c then ⟨[], afterLiteral c rest⟩
    else readClause 0 (c :: rest)

/-- The specifiers of a clause: the braces dropped, split at commas, white space collapsed. -/
def clauseSpecifiers (clause : List Char) : List (List Char) :=
  ((Text.pieces ',' (dropBraces clause)).map fun piece =>
    [' '].intercalate (Text.wordsOf piece)).filter (!·.isEmpty)

/-! ## Nothing is added -/

theorem length_readClause_le (depth : Nat) (text : List Char) :
    (readClause depth text).rest.length ≤ text.length := by
  fun_induction readClause depth text with
  | case1 => simp
  | case2 depth rest ih =>
    have := length_afterLine_le rest
    simp only [Clause.prepend, List.length_cons]; omega
  | case3 depth rest ih =>
    have := length_afterBlock_le rest
    simp only [Clause.prepend, List.length_cons]; omega
  | case4 depth rest _ _ ih => simp only [Clause.prepend, List.length_cons]; omega
  | case5 depth rest _ _ _ ih => simp only [Clause.prepend, List.length_cons]; omega
  | case6 => simp
  | case7 depth head rest _ _ _ _ _ _ =>
    have := length_afterStatement_le rest
    simp only [List.length_cons]; omega
  | case8 depth head rest _ _ _ _ _ _ _ =>
    have literal := length_afterLiteral_le head rest
    have terminator := length_skipTerminator_le (afterLiteral head rest)
    simp only [List.length_cons]; omega
  | case9 depth head rest _ _ _ _ _ _ _ start _ =>
    have word := length_afterWord_lt rest start
    have modulePart := length_skipModule_le (afterWord (head :: rest))
    simp only; omega
  | case10 depth head rest _ _ _ _ _ _ _ start _ ih =>
    have word := length_afterWord_lt rest start
    simp only [Clause.prepend]; omega
  | case11 depth head rest _ _ _ _ _ _ _ _ ih =>
    simp only [Clause.prepend, List.length_cons]; omega

theorem length_readImport_le (text : List Char) :
    (readImport text).rest.length ≤ text.length := by
  have blanks := length_skipBlanks_le text
  unfold readImport
  split
  · simp
  · rename_i head tail found
    rw [found] at blanks
    simp only [List.length_cons] at blanks
    split
    · simpa using blanks
    · split
      · have literal := length_afterLiteral_le head tail
        simp only; omega
      · have clause := length_readClause_le 0 (head :: tail)
        simp only [List.length_cons] at clause
        omega

/-- Walks over source text whose line breaks are line feeds. `glued` says that the character just
passed is a digit or a point, so that a word starting here is not a keyword. -/
def walk (glued : Bool) (text : List Char) : List (List Char) :=
  match text with
  | [] => []
  | '/' :: '/' :: rest => walk false (afterLine rest)
  | '/' :: '*' :: rest => walk false (afterBlock rest)
  | c :: rest =>
    if isQuote c then walk false (afterLiteral c rest)
    else if _start : isWordStart c then
      if wordOf (c :: rest) = "import".toList && !glued then
        clauseSpecifiers (readImport (afterWord (c :: rest))).text ++
          walk false (readImport (afterWord (c :: rest))).rest
      else walk false (afterWord (c :: rest))
    else walk (isWordChar c || c == '.') rest
termination_by text.length
decreasing_by
  · have := length_afterLine_le rest
    simp only [List.length_cons]; omega
  · have := length_afterBlock_le rest
    simp only [List.length_cons]; omega
  · have := length_afterLiteral_le c rest
    simp only [List.length_cons]; omega
  · have word := length_afterWord_lt rest _start
    have clause := length_readImport_le (afterWord (c :: rest))
    omega
  · exact length_afterWord_lt rest _start
  · simp

/-- The specifiers of a source text by the statement scan, in source order. -/
def scanStatements (source : List Char) : List (List Char) :=
  walk false (Source.unifyBreaks source)

end ImportAudit.Import
