import ImportAudit.Yaml.Reading

/-!
# The tokens of a document

A document is cut into tokens that make its structure explicit: indentation becomes the start and
end of block collections, and a scalar turns out to be a key only when a colon follows it on its
line. What cannot be read ends the tokens with an invalid one. Anchors, tags, directives and block
scalars are not part of the format.
-/

namespace ImportAudit.Yaml

inductive Token
  | documentStart
  | documentEnd
  | blockSequence
  | blockMapping
  | blockEnd
  | flowSequence
  | flowSequenceEnd
  | flowMapping
  | flowMappingEnd
  | blockEntry
  | flowEntry
  | key
  | value
  | plain (text : String)
  | quoted (text : String)
  | invalid
  deriving DecidableEq, Repr

/-- A place where a key may have started: how many tokens stand before it, where it is, how much
text was left there, and whether something other than a key is refused there. -/
structure Candidate where
  tokens : Nat
  line : Nat
  column : Nat
  remaining : Nat
  required : Bool
  deriving DecidableEq, Repr

/-- The greatest distance between the start of a key and its colon. -/
def longestKey : Nat := 1024

/-- The state of cutting: the cursor, the tokens from last to first, the indentation of the open
block collections, whether a key may start here, and the candidate of the innermost collection
with those of the flow collections around it. -/
structure Lexer where
  cursor : Cursor
  tokens : List Token
  indent : Int
  indents : List Int
  keyAllowed : Bool
  candidate : Option Candidate
  outer : List (Option Candidate)

namespace Lexer

def start (text : List Char) : Lexer :=
  ⟨⟨text, 0, 0⟩, [], -1, [], true, none, []⟩

def inFlow (lexer : Lexer) : Bool := !lexer.outer.isEmpty

def emit (lexer : Lexer) (token : Token) : Lexer :=
  { lexer with tokens := token :: lexer.tokens }

/-- Adds a token and steps over the character that it stands for. -/
def emitHere (lexer : Lexer) (token : Token) : Lexer :=
  { lexer.emit token with cursor := lexer.cursor.advance }

/-- Puts a token behind the first so many. -/
def insert (lexer : Lexer) (count : Nat) (token : Token) : Lexer :=
  let later := lexer.tokens.length - count
  { lexer with tokens := lexer.tokens.take later ++ token :: lexer.tokens.drop later }

/-! ## White space and indentation -/

/-- Skips white space and comments up to the next token. A tab is white space only where no key
can start, and a new line outside of flow collections lets a key start. -/
def skipGap (inFlow keyAllowed inComment : Bool) (line column : Nat) :
    List Char → Cursor × Bool
  | [] => (⟨[], line, column⟩, keyAllowed)
  | c :: rest =>
    if isBreak c then skipGap inFlow (keyAllowed || !inFlow) false (line + 1) 0 rest
    else if inComment || c = '#' then skipGap inFlow keyAllowed true line (column + 1) rest
    else if c = ' ' || (c = '\t' && (inFlow || !keyAllowed)) then
      skipGap inFlow keyAllowed false line (column + 1) rest
    else (⟨c :: rest, line, column⟩, keyAllowed)

def toToken (lexer : Lexer) : Lexer :=
  let (cursor, keyAllowed) := skipGap lexer.inFlow lexer.keyAllowed false lexer.cursor.line
    lexer.cursor.column lexer.cursor.rest
  { lexer with cursor, keyAllowed }

def closeBlocks (column : Int) : Int → List Int → List Token → Int × List Int × List Token
  | indent, [], tokens => (indent, [], tokens)
  | indent, outer :: rest, tokens =>
    if column < indent then closeBlocks column outer rest (.blockEnd :: tokens)
    else (indent, outer :: rest, tokens)

/-- The state with the block collections closed that are indented more than a column; inside flow
collections indentation has no meaning. -/
def unroll (lexer : Lexer) (column : Int) : Lexer :=
  if lexer.inFlow then lexer
  else
    let (indent, indents, tokens) := closeBlocks column lexer.indent lexer.indents lexer.tokens
    { lexer with indent, indents, tokens }

/-- Opens a block collection at a column, behind the first so many tokens, if the column is
indented more than the open ones. -/
def roll (lexer : Lexer) (column : Nat) (count : Nat) (token : Token) : Lexer :=
  if lexer.inFlow || (column : Int) ≤ lexer.indent then lexer
  else
    { lexer.insert count token with
      indent := column
      indents := lexer.indent :: lexer.indents }

/-! ## Keys -/

/-- Gives up the candidate for a key, unless a key is required there. -/
def dropCandidate (lexer : Lexer) : Option Lexer :=
  match lexer.candidate with
  | some candidate => if candidate.required then none else some { lexer with candidate := none }
  | none => some lexer

/-- Notes that a key may start here. -/
def noteCandidate (lexer : Lexer) : Option Lexer :=
  if !lexer.keyAllowed then some lexer
  else
    let candidate : Candidate :=
      ⟨lexer.tokens.length, lexer.cursor.line, lexer.cursor.column, lexer.cursor.rest.length,
        !lexer.inFlow && lexer.indent = lexer.cursor.column⟩
    lexer.dropCandidate.map ({ · with candidate := some candidate })

/-- Whether a candidate is still on its line and near enough to be a key. -/
def inReach (lexer : Lexer) (candidate : Candidate) : Bool :=
  candidate.line = lexer.cursor.line &&
    candidate.remaining ≤ lexer.cursor.rest.length + longestKey

/-! ## Single tokens -/

def marker (lexer : Lexer) (token : Token) : Option Lexer :=
  (lexer.unroll (-1)).dropCandidate.map fun lexer =>
    { lexer.emit token with
      keyAllowed := false
      cursor := lexer.cursor.advance.advance.advance }

def openFlow (lexer : Lexer) (token : Token) : Option Lexer :=
  lexer.noteCandidate.map fun lexer =>
    { lexer.emitHere token with
      keyAllowed := true
      outer := lexer.candidate :: lexer.outer
      candidate := none }

def closeFlow (lexer : Lexer) (token : Token) : Option Lexer :=
  lexer.dropCandidate.map fun lexer =>
    { lexer.emitHere token with
      keyAllowed := false
      candidate := lexer.outer.headD none
      outer := lexer.outer.drop 1 }

def flowEntry (lexer : Lexer) : Option Lexer :=
  lexer.dropCandidate.map fun lexer => { lexer.emitHere .flowEntry with keyAllowed := true }

/-- The dash before an entry of a block sequence. -/
def blockEntry (lexer : Lexer) : Option Lexer :=
  if !lexer.inFlow && !lexer.keyAllowed then none
  else
    (lexer.roll lexer.cursor.column lexer.tokens.length .blockSequence).dropCandidate.map
      fun lexer => { lexer.emitHere .blockEntry with keyAllowed := true }

/-- The question mark before a key. -/
def explicitKey (lexer : Lexer) : Option Lexer :=
  if !lexer.inFlow && !lexer.keyAllowed then none
  else
    (lexer.roll lexer.cursor.column lexer.tokens.length .blockMapping).dropCandidate.map
      fun lexer => { lexer.emitHere .key with keyAllowed := !lexer.inFlow }

/-- The colon after a key that stands on the same line. -/
def valueOf (lexer : Lexer) (candidate : Candidate) : Lexer :=
  let keyed := lexer.insert candidate.tokens .key
  let rolled := keyed.roll candidate.column candidate.tokens .blockMapping
  { rolled.emitHere .value with candidate := none, keyAllowed := false }

/-- The colon after a key that was marked as such, or after no key. -/
def bareValue (lexer : Lexer) : Option Lexer :=
  if !lexer.inFlow && !lexer.keyAllowed then none
  else
    let rolled := lexer.roll lexer.cursor.column lexer.tokens.length .blockMapping
    some { rolled.emitHere .value with candidate := none, keyAllowed := !lexer.inFlow }

def valueMark (lexer : Lexer) : Option Lexer :=
  match lexer.candidate with
  | none => lexer.bareValue
  | some candidate =>
    if lexer.inReach candidate then some (lexer.valueOf candidate)
    else if candidate.required then none
    else lexer.bareValue

def scalar (lexer : Lexer) (wrap : String → Token)
    (reading : Lexer → Option ScalarRead) : Option Lexer :=
  match lexer.noteCandidate with
  | none => none
  | some lexer =>
    (reading lexer).map fun read =>
      { lexer.emit (wrap (String.ofList read.text)) with
        cursor := read.cursor
        keyAllowed := read.spansLines }

def plainHere (lexer : Lexer) : Option ScalarRead :=
  readPlain lexer.inFlow (lexer.indent + 1) [] Gap.none lexer.cursor.line lexer.cursor.column
    lexer.cursor.rest

def doubleHere (lexer : Lexer) : Option ScalarRead :=
  readDouble [] Gap.none .none lexer.cursor.line (lexer.cursor.column + 1)
    (lexer.cursor.rest.drop 1)

def singleHere (lexer : Lexer) : Option ScalarRead :=
  readSingle [] Gap.none lexer.cursor.line (lexer.cursor.column + 1) (lexer.cursor.rest.drop 1)

/-- Whether a character can start a plain scalar where nothing else starts with it. -/
def startsPlain (inFlow : Bool) (c : Char) (rest : List Char) : Bool :=
  !(isBlank c || isBreak c || "-?:,[]{}#&*!|>'\"%@`".toList.contains c) ||
    (c = '-' && !(rest.head?.any isBlank)) ||
    (!inFlow && (c = '?' || c = ':') && !gapAhead rest)

def token (lexer : Lexer) (c : Char) (rest : List Char) : Option Lexer :=
  if lexer.cursor.column = 0 && c = '-' && startsMarker (c :: rest) then
    lexer.marker .documentStart
  else if lexer.cursor.column = 0 && c = '.' && startsMarker (c :: rest) then
    lexer.marker .documentEnd
  else if lexer.cursor.column = 0 && c = '%' then none
  else if c = '[' then lexer.openFlow .flowSequence
  else if c = '{' then lexer.openFlow .flowMapping
  else if c = ']' then lexer.closeFlow .flowSequenceEnd
  else if c = '}' then lexer.closeFlow .flowMappingEnd
  else if c = ',' then lexer.flowEntry
  else if c = '-' && gapAhead rest then lexer.blockEntry
  else if c = '?' && (lexer.inFlow || gapAhead rest) then lexer.explicitKey
  else if c = ':' && (lexer.inFlow || gapAhead rest) then lexer.valueMark
  else if c = '\'' then lexer.scalar .quoted singleHere
  else if c = '"' then lexer.scalar .quoted doubleHere
  else if startsPlain lexer.inFlow c rest then lexer.scalar .plain plainHere
  else none

/-- Ends the document: every block is closed, and a key that was required has to be there. -/
def finish (lexer : Lexer) : List Token :=
  let closed := lexer.unroll (-1)
  match closed.dropCandidate with
  | some done => done.tokens.reverse
  | none => (closed.emit .invalid).tokens.reverse

/-- Cuts the rest of a text; every token takes at least one character, which bounds the
number of steps. -/
def run : Nat → Lexer → List Token
  | 0, lexer => lexer.tokens.reverse
  | steps + 1, lexer =>
    let lexer := lexer.toToken
    let lexer := lexer.unroll lexer.cursor.column
    match lexer.cursor.rest with
    | [] => lexer.finish
    | c :: rest =>
      match lexer.token c rest with
      | some next => run steps next
      | none => (lexer.emit .invalid).tokens.reverse

end Lexer

def tokensOf (text : List Char) : List Token :=
  Lexer.run (text.length + 1) (Lexer.start text)

end ImportAudit.Yaml
