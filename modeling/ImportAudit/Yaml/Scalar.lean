import ImportAudit.Text.Quoted
import ImportAudit.Yaml.Plain

/-!
# Written scalars

Writing a text as a YAML scalar inside a block list. A text stands plain where that reads back as
the same text; a text that would read as another type is put in double quotes, one that the plain
form does not allow in single quotes, one with unprintable characters in double quotes with
escapes, and one with line feeds in a literal block.
-/

namespace ImportAudit.Yaml

inductive Style
  | plain
  | single
  | double
  | literal
  deriving DecidableEq, Repr

/-- A character that a document may hold unescaped: the line feed, printable ASCII, and the basic
plane from the no-break space on without surrogates, byte-order mark and the last two points. -/
def isPrintable (c : Char) : Bool :=
  let n := c.toNat
  n = 0x0A || (0x20 ≤ n && n ≤ 0x7E) || (0xA0 ≤ n && n ≤ 0xFFFD && n ≠ 0xFEFF)

def isBreak (c : Char) : Bool :=
  let n := c.toNat
  n = 0x0A || n = 0x0D || n = 0x85 || n = 0x2028 || n = 0x2029

def isBlank (c : Char) : Bool :=
  c = ' ' || c = '\t'

def blankAhead : List Char → Bool
  | [] => true
  | c :: _ => isBlank c

/-- Whether the first character keeps a text from standing plain. -/
def opensIndicator : List Char → Bool
  | [] => false
  | c :: rest =>
    ",[]{}#&*!|>'\"%@`".toList.contains c ||
      ((c = '?' || c = ':' || c = '-') && blankAhead rest)

/-- Whether a later character keeps a text from standing plain: a colon before a blank or at the
end, and a number sign after a blank. -/
def holdsIndicator (afterBlank : Bool) : List Char → Bool
  | [] => false
  | c :: rest =>
    (c = ':' && blankAhead rest) || (c = '#' && afterBlank) ||
      holdsIndicator (isBlank c || isBreak c || c = '\x00') rest

/-- Whether a character after the first keeps a text from standing plain. -/
def holdsIndicatorInside : List Char → Bool
  | [] => false
  | c :: rest => holdsIndicator (isBlank c || isBreak c || c = '\x00') rest

def opensMarker (text : List Char) : Bool :=
  "---".toList.isPrefixOf text || "...".toList.isPrefixOf text

def hasPair (first second : Char → Bool) : List Char → Bool
  | a :: b :: rest => (first a && second b) || hasPair first second (b :: rest)
  | _ => false

def hasSpecial (text : List Char) : Bool :=
  text.any fun c => c ≠ '\t' && !isPrintable c

/-- Whether a space or a break stands at an end of the text. -/
def hasLooseEnd (text : List Char) : Bool :=
  let loose := fun c => c = ' ' || isBreak c
  text.head?.any loose || text.getLast?.any loose

def plainAllowed (text : List Char) : Bool :=
  !(opensMarker text || opensIndicator text || holdsIndicatorInside text || hasLooseEnd text ||
    text.any isBreak || text.contains '\t' || hasSpecial text)

/-- Whether single quotes can hold a text: they cannot escape, and fold spaces around breaks. -/
def singleAllowed (text : List Char) : Bool :=
  !(hasPair isBreak (· = ' ') text || hasPair (· = ' ') isBreak text || text.contains '\t' ||
    hasSpecial text)

def literalAllowed (text : List Char) : Bool :=
  !(text.getLast? = some ' ' || hasPair (· = ' ') isBreak text || hasSpecial text)

/-- Words that older readers take for truth values. -/
def isOldTruth (text : String) : Bool :=
  ["y", "Y", "yes", "Yes", "YES", "on", "On", "ON",
    "n", "N", "no", "No", "NO", "off", "Off", "OFF"].contains text

/-- Whether a text is groups of at most two digits below sixty after colons, with an optional
fraction at the end. -/
def isSixties (text : List Char) : Bool :=
  match text with
  | ':' :: a :: b :: rest =>
    if Number.isDigit a && Number.isDigit b && a ≤ '5' then
      rest.isEmpty || isFraction rest || isSixties rest
    else if Number.isDigit a then
      isFraction (b :: rest) || isSixties (b :: rest)
    else false
  | [':', a] => Number.isDigit a
  | _ => false
where
  /-- A point and digits or underscores. -/
  isFraction : List Char → Bool
    | '.' :: digits => digits.all fun c => Number.isDigit c || c = '_'
    | _ => false

/-- Whether older readers take a text for a number in base sixty. -/
def isOldSixty (text : List Char) : Bool :=
  let unsigned := (Number.splitSign text).2
  unsigned.head?.any Number.isDigit &&
    isSixties (unsigned.dropWhile fun c => Number.isDigit c || c = '_')

/-- Whether a plain text would read back as text, for older readers too. -/
def readsAsText (text : String) : Bool :=
  meaning text = .text && !isOldTruth text && !isOldSixty text.toList

def styleOf (text : String) : Style :=
  let chars := text.toList
  if chars.contains '\n' then if literalAllowed chars then .literal else .double
  else if !readsAsText text then .double
  else if plainAllowed chars then .plain
  else if singleAllowed chars then .single
  else .double

def itemIndent : List Char :=
  List.replicate 4 ' '

/-- The content of a single-quoted scalar: quotes are doubled, and what follows a break is
indented. -/
def singleContent (afterBreak : Bool) : List Char → List Char
  | [] => []
  | c :: rest =>
    if isBreak c then c :: singleContent true rest
    else
      (if afterBreak then itemIndent else []) ++ (if c = '\'' then [c, c] else [c]) ++
        singleContent false rest

/-- A hexadecimal escape in upper case. -/
def pointEscape (mark : Char) (width n : Nat) : List Char :=
  '\\' :: mark :: (Text.hexDigits width n).map Char.toUpper

def doubleChar (c : Char) : List Char :=
  if isPrintable c && !isBreak c && c ≠ '"' && c ≠ '\\' then [c]
  else
    match c.toNat with
    | 0x00 => ['\\', '0']
    | 0x07 => ['\\', 'a']
    | 0x08 => ['\\', 'b']
    | 0x09 => ['\\', 't']
    | 0x0A => ['\\', 'n']
    | 0x0B => ['\\', 'v']
    | 0x0C => ['\\', 'f']
    | 0x0D => ['\\', 'r']
    | 0x1B => ['\\', 'e']
    | 0x22 => ['\\', '"']
    | 0x5C => ['\\', '\\']
    | 0x85 => ['\\', 'N']
    | 0x2028 => ['\\', 'L']
    | 0x2029 => ['\\', 'P']
    | n =>
      if n ≤ 0xFF then pointEscape 'x' 2 n
      else if n ≤ 0xFFFF then pointEscape 'u' 4 n
      else pointEscape 'U' 8 n

/-- Whether a literal block has to keep all its trailing line breaks. -/
def keepsBreaks (text : List Char) : Bool :=
  match text.reverse with
  | [c] => isBreak c
  | c :: d :: _ => isBreak c && isBreak d
  | [] => false

/-- What stands after the bar of a literal block: an indentation where the text starts with a
space or a break, and the treatment of trailing breaks. -/
def literalHints (text : List Char) : List Char :=
  (if text.head?.any (fun c => c = ' ' || isBreak c) then ['2'] else []) ++
    (if !(text.getLast?.any isBreak) then ['-'] else if keepsBreaks text then ['+'] else [])

/-- The lines of a literal block, every line that holds text indented. -/
def literalContent (afterBreak : Bool) : List Char → List Char
  | [] => []
  | c :: rest =>
    if isBreak c then c :: literalContent true rest
    else (if afterBreak then itemIndent else []) ++ c :: literalContent false rest

/-- The scalar as it stands after the dash of a list item, its line end included. -/
def itemText (text : String) : List Char :=
  let chars := text.toList
  match styleOf text with
  | .plain => chars ++ ['\n']
  | .single => '\'' :: singleContent false chars ++ ['\'', '\n']
  | .double => '"' :: chars.flatMap doubleChar ++ ['"', '\n']
  | .literal =>
    '|' :: literalHints chars ++ '\n' :: literalContent true chars ++
      (if chars.getLast?.any isBreak then [] else ['\n'])

end ImportAudit.Yaml
