import ImportAudit.Yaml.Scalar

/-!
# Reading the scalars of a document

Plain and quoted scalars may run over several lines. The blanks and breaks between two words of
a scalar form a gap: a gap without a break is kept, one break is read as a space, and of several
breaks all but the first are kept. Line breaks are uniform before anything is read.
-/

namespace ImportAudit.Yaml

/-- Makes line breaks uniform: a carriage return with or without a line feed, and the next-line
character, are line feeds. -/
def uniformBreaks : List Char → List Char
  | [] => []
  | '\r' :: '\n' :: rest => '\n' :: uniformBreaks rest
  | c :: rest =>
    (if c = '\r' || c = '\u0085' then '\n' else c) :: uniformBreaks rest

/-- Where reading has come to: what is left, and the line and column of its first character. -/
structure Cursor where
  rest : List Char
  line : Nat
  column : Nat
  deriving DecidableEq, Repr

def Cursor.advance (cursor : Cursor) : Cursor :=
  { cursor with rest := cursor.rest.drop 1, column := cursor.column + 1 }

/-- Whether a text starts with white space or is over. -/
def gapAhead : List Char → Bool
  | [] => true
  | c :: _ => isBlank c || isBreak c

/-- Whether a text starts with a document marker that stands alone. -/
def startsMarker (text : List Char) : Bool :=
  opensMarker text && gapAhead (text.drop 3)

/-! ## Gaps -/

/-- The white space since the last word of a scalar: blanks, then perhaps a first break, then
further breaks. A break that was escaped counts as an empty first one. -/
structure Gap where
  blanks : List Char
  first : Option (List Char)
  further : List Char
  deriving DecidableEq, Repr

namespace Gap

def none : Gap := ⟨[], Option.none, []⟩

/-- The gap left by an escaped break. -/
def escaped : Gap := ⟨[], some [], []⟩

def spansLines (gap : Gap) : Bool := gap.first.isSome

/-- The gap with one more blank; blanks after a break do not count. -/
def addBlank (gap : Gap) (c : Char) : Gap :=
  if gap.spansLines then gap else { gap with blanks := gap.blanks ++ [c] }

def addBreak (gap : Gap) (c : Char) : Gap :=
  match gap.first with
  | Option.none => ⟨[], some [c], []⟩
  | some _ => { gap with further := gap.further ++ [c] }

def text (gap : Gap) : List Char :=
  match gap.first with
  | Option.none => gap.blanks
  | some ['\n'] => if gap.further.isEmpty then [' '] else gap.further
  | some first => first ++ gap.further

end Gap

/-! ## Plain scalars -/

/-- A scalar that was read: its text, the cursor after it and the white space that follows, and
whether that white space spans lines. -/
structure ScalarRead where
  text : List Char
  cursor : Cursor
  spansLines : Bool
  deriving DecidableEq, Repr

def endsPlain (inFlow : Bool) (c : Char) (rest : List Char) : Bool :=
  (c = ':' && gapAhead rest) ||
    (inFlow && (c = ',' || c = '?' || c = '[' || c = ']' || c = '{' || c = '}'))

/-- Whether a plain scalar stops at a word after a gap: at a comment, at a document marker, and
in block style at less than its indentation. -/
def stopsPlain (inFlow : Bool) (indent : Int) (gap : Gap) (column : Nat) (text : List Char) :
    Bool :=
  gap != Gap.none &&
    (text.head? = some '#' || (column = 0 && startsMarker text) ||
      (!inFlow && (column : Int) < indent))

/-- Reads a plain scalar; `read` is what was read so far, from last to first. A tab in the
indentation of a further line is refused. -/
def readPlain (inFlow : Bool) (indent : Int) (read : List Char) (gap : Gap) (line column : Nat) :
    List Char → Option ScalarRead
  | [] => some ⟨read.reverse, ⟨[], line, column⟩, gap.spansLines⟩
  | c :: rest =>
    if isBlank c then
      if gap.spansLines && (column : Int) < indent && c = '\t' then none
      else readPlain inFlow indent read (gap.addBlank c) line (column + 1) rest
    else if isBreak c then readPlain inFlow indent read (gap.addBreak c) (line + 1) 0 rest
    else if stopsPlain inFlow indent gap column (c :: rest) || endsPlain inFlow c rest then
      some ⟨read.reverse, ⟨c :: rest, line, column⟩, gap.spansLines⟩
    else
      readPlain inFlow indent (c :: gap.text.reverse ++ read) Gap.none line (column + 1) rest

/-! ## Quoted scalars -/

/-- How far an escape sequence has come: hexadecimal digits still to read, and their value. -/
inductive Escape
  | none
  | started
  | digits (left value : Nat)
  deriving DecidableEq, Repr

def escapeLetter? (c : Char) : Option Char :=
  [('0', '\x00'), ('a', '\x07'), ('b', '\x08'), ('t', '\t'), ('\t', '\t'), ('n', '\n'),
    ('v', '\x0b'), ('f', '\x0c'), ('r', '\r'), ('e', '\x1b'), (' ', ' '), ('"', '"'),
    ('\'', '\''), ('\\', '\\'), ('N', '\u0085'), ('_', '\u00a0'), ('L', '\u2028'),
    ('P', '\u2029')].lookup c

/-- How many hexadecimal digits follow a letter after a backslash. -/
def escapeDigits? (c : Char) : Option Nat :=
  [('x', 2), ('u', 4), ('U', 8)].lookup c

def hexValue? (c : Char) : Option Nat :=
  (Number.digitValue? c).filter (· < 16)

def charOfPoint? (point : Nat) : Option Char :=
  if (0xD800 ≤ point && point ≤ 0xDFFF) || 0x10FFFF < point then none else some (Char.ofNat point)

/-- Reads a scalar in double quotes up to and with the closing quote. -/
def readDouble (read : List Char) (gap : Gap) (escape : Escape) (line column : Nat) :
    List Char → Option ScalarRead
  | [] => none
  | c :: rest =>
    match escape with
    | .digits left value =>
      match hexValue? c with
      | none => none
      | some digit =>
        let value := value * 16 + digit
        if 1 < left then readDouble read gap (.digits (left - 1) value) line (column + 1) rest
        else
          match charOfPoint? value with
          | none => none
          | some named => readDouble (named :: read) gap .none line (column + 1) rest
    | .started =>
      if isBreak c then readDouble read Gap.escaped .none (line + 1) 0 rest
      else
        match escapeLetter? c, escapeDigits? c with
        | some named, _ => readDouble (named :: read) gap .none line (column + 1) rest
        | none, some count => readDouble read gap (.digits count 0) line (column + 1) rest
        | none, none => none
    | .none =>
      if isBlank c then readDouble read (gap.addBlank c) .none line (column + 1) rest
      else if isBreak c then readDouble read (gap.addBreak c) .none (line + 1) 0 rest
      else if column = 0 && startsMarker (c :: rest) then none
      else
        let joined := gap.text.reverse ++ read
        if c = '"' then some ⟨joined.reverse, ⟨rest, line, column + 1⟩, false⟩
        else if c = '\\' then readDouble joined Gap.none .started line (column + 1) rest
        else readDouble (c :: joined) Gap.none .none line (column + 1) rest

/-- Reads a scalar in single quotes up to and with the closing quote; a quote written twice stands
for one. -/
def readSingle (read : List Char) (gap : Gap) (line column : Nat) :
    List Char → Option ScalarRead
  | [] => none
  | '\'' :: '\'' :: rest =>
    readSingle ('\'' :: gap.text.reverse ++ read) Gap.none line (column + 2) rest
  | c :: rest =>
    if isBlank c then readSingle read (gap.addBlank c) line (column + 1) rest
    else if isBreak c then readSingle read (gap.addBreak c) (line + 1) 0 rest
    else if column = 0 && startsMarker (c :: rest) then none
    else
      let joined := gap.text.reverse ++ read
      if c = '\'' then some ⟨joined.reverse, ⟨rest, line, column + 1⟩, false⟩
      else readSingle (c :: joined) Gap.none line (column + 1) rest

end ImportAudit.Yaml
