import ImportAudit.Import.Scan

/-!
# Written sources

A grammar of sources with import statements, and the text that each of its elements is written
as. The elements carry their own layout: between any two tokens stands a gap, which is any mix of
blanks, line breaks and comments. A writer takes the text of a blank as a parameter, so that the
source and what a scan keeps of it are two uses of the same writer.
-/

namespace ImportAudit.Import.Written

open ImportAudit.Text (isSpace isWordStart isWordChar)

/-! ## Tokens -/

/-- Whether a text is an identifier: it starts like one, goes on like one, and has no white
space in it. -/
def isIdentifier : List Char → Bool
  | [] => false
  | head :: tail => isWordStart head && (head :: tail).all fun c => isWordChar c && !isSpace c

structure Identifier where
  text : List Char
  valid : isIdentifier text = true

/-- A complete literal in one of the three quotes, without escapes. Only a template literal may
hold line breaks. -/
structure Literal where
  quote : Char
  body : List Char
  quoted : isQuote quote = true
  plain : ∀ c ∈ body, c ≠ '\\' ∧ c ≠ quote ∧ (c = '\n' → quote = '\x60')

def Literal.text (literal : Literal) : List Char :=
  literal.quote :: literal.body ++ [literal.quote]

/-- What may stand between two tokens. A line comment has its line break with it. -/
inductive Blank where
  | space
  | tab
  | lineBreak
  | lineComment (body : List Char) (oneLine : '\n' ∉ body)
  | blockComment (body : List Char) (unclosed : Text.occurs ['*', '/'] body = false)

namespace Blank

/-- A blank as the source has it, a line comment with its break. -/
def source : Blank → List Char
  | space => [' ']
  | tab => ['\t']
  | lineBreak => ['\n']
  | lineComment body _ => '/' :: '/' :: (body ++ ['\n'])
  | blockComment body _ => '/' :: '*' :: (body ++ ['*', '/'])

/-- What a clause keeps of a blank: a comment counts as one space. -/
def kept : Blank → List Char
  | tab => ['\t']
  | lineBreak => ['\n']
  | _ => [' ']

end Blank

/-- Whatever stands between two tokens, possibly nothing. -/
abbrev Gap := List Blank

/-- A gap that keeps two tokens apart. -/
structure Separator where
  gap : Gap
  apart : gap ≠ []

/-! ## Clauses

Every writer below is given the text of a blank. -/

section Writers

variable (blank : Blank → List Char)

def Gap.write (gap : Gap) : List Char :=
  gap.flatMap blank

def Separator.write (separator : Separator) : List Char :=
  Gap.write blank separator.gap

/-- One imported name, perhaps marked by the word `type`, perhaps under another name. -/
structure Specifier where
  typed : Option Separator
  name : Identifier
  renamed : Option (Separator × Separator × Identifier)

/-- The word `type` in front of a specifier, if it is marked. -/
def writeTyped : Option Separator → List Char
  | none => []
  | some separator => "type".toList ++ separator.write blank

/-- The other name of a specifier behind its `as`, if it has one. -/
def writeRenamed : Option (Separator × Separator × Identifier) → List Char
  | none => []
  | some (before, after, name) =>
    before.write blank ++ "as".toList ++ after.write blank ++ name.text

/-- A specifier: its mark, its name, its other name. -/
def Specifier.write (specifier : Specifier) : List Char :=
  writeTyped blank specifier.typed ++ specifier.name.text ++
    writeRenamed blank specifier.renamed

/-- A further specifier of a list, with the gaps around the comma before it. -/
structure Further where
  beforeComma : Gap
  afterComma : Gap
  specifier : Specifier

/-- A further specifier of a list, with the comma before it. -/
def Further.write (further : Further) : List Char :=
  Gap.write blank further.beforeComma ++
    ',' :: (Gap.write blank further.afterComma ++ further.specifier.write blank)

/-- The comma behind the last specifier of a list, if there is one. -/
def writeTrailing : Option Gap → List Char
  | none => []
  | some gap => ',' :: Gap.write blank gap

/-- What a clause names besides a default: a whole module, or a list of specifiers in braces. -/
inductive Group where
  | whole (afterStar : Gap) (afterAs : Separator) (name : Identifier)
  | listed (afterOpening : Gap) (first : Specifier) (others : List Further) (afterLast : Gap)
      (trailing : Option Gap)

/-- A group: `* as` and a name, or specifiers in braces. -/
def Group.write : Group → List Char
  | .whole afterStar afterAs name =>
    '*' :: (Gap.write blank afterStar ++ "as".toList ++ afterAs.write blank ++ name.text)
  | .listed afterOpening first others afterLast trailing =>
    '{' :: (Gap.write blank afterOpening ++ first.write blank ++
      others.flatMap (Further.write blank) ++ Gap.write blank afterLast ++
      writeTrailing blank trailing ++ ['}'])

/-- What an import statement names: a default, a group, or a default and a group. -/
inductive Bindings where
  | single (name : Identifier)
  | grouped (group : Group)
  | both (name : Identifier) (beforeComma afterComma : Gap) (group : Group)

/-- The bindings of a clause: a default first, then a group behind a comma. -/
def Bindings.write : Bindings → List Char
  | .single name => name.text
  | .grouped group => group.write blank
  | .both name beforeComma afterComma group =>
    name.text ++ Gap.write blank beforeComma ++
      ',' :: (Gap.write blank afterComma ++ group.write blank)

/-- The word `type` in front of a clause. The gap behind it may be empty before a brace or a star.
-/
def writeMark : Option Gap → List Char
  | none => []
  | some gap => "type".toList ++ Gap.write blank gap

end Writers

/-! ## Statements -/

/-- Whether a group ends with a name, so that a word must not follow at once. -/
def Group.endsWithName : Group → Bool
  | .whole .. => true
  | .listed .. => false

def Bindings.startsWithName : Bindings → Bool
  | .grouped _ => false
  | _ => true

def Bindings.endsWithName : Bindings → Bool
  | .single _ => true
  | .grouped group => group.endsWithName
  | .both _ _ _ group => group.endsWithName

/-- An import of names from a module. Two words never touch. -/
structure ModuleImport where
  afterImport : Gap
  typed : Option Gap
  bindings : Bindings
  beforeFrom : Gap
  afterFrom : Gap
  origin : Literal
  terminator : Option Gap
  startApart : (typed.isSome || bindings.startsWithName) = true → afterImport ≠ []
  markApart : bindings.startsWithName = true → typed ≠ some []
  endApart : bindings.endsWithName = true → beforeFrom ≠ []

/-- How an import of a value ends: with the line, or by a sign of its own. -/
inductive Ending where
  | withLine
  | semicolon
  | lineBreak

/-- An import of a value under a name, as in `import X = require('y')`. -/
structure ValueImport where
  afterImport : Separator
  name : Identifier
  beforeEquals : Gap
  value : List Char
  ending : Ending
  oneLine : ∀ c ∈ value, c ≠ ';' ∧ c ≠ '\n'

def terminatorText : Option Gap → List Char
  | none => []
  | some gap => gap.write Blank.source ++ [';']

def Ending.text : Ending → List Char
  | .withLine => []
  | .semicolon => [';']
  | .lineBreak => ['\n']

/-- The clause of an import from a module: what stands between `import` and `from`. -/
def ModuleImport.writeClause (blank : Blank → List Char) (statement : ModuleImport) :
    List Char :=
  writeMark blank statement.typed ++ statement.bindings.write blank ++
    statement.beforeFrom.write blank

/-- The whole statement, from `import` to its terminator. -/
def ModuleImport.text (statement : ModuleImport) : List Char :=
  "import".toList ++ statement.afterImport.write Blank.source ++
    statement.writeClause Blank.source ++ "from".toList ++
    statement.afterFrom.write Blank.source ++ statement.origin.text ++
    terminatorText statement.terminator

/-- The whole statement, from `import` to the end of its value. -/
def ValueImport.text (statement : ValueImport) : List Char :=
  "import".toList ++ statement.afterImport.write Blank.source ++ statement.name.text ++
    statement.beforeEquals.write Blank.source ++ '=' :: statement.value ++
    statement.ending.text

/-! ## Sources -/

/-- A character that is neither a quote nor part of a word. -/
def isSign (c : Char) : Bool :=
  !isQuote c && !isWordStart c

/-- One item of a source. Only the two kinds of import statement name anything. -/
inductive Item where
  | moduleImport (statement : ModuleImport)
  | valueImport (statement : ValueImport)
  | lineComment (body : List Char) (oneLine : '\n' ∉ body)
  | blockComment (body : List Char) (unclosed : Text.occurs ['*', '/'] body = false)
  | quotation (literal : Literal)
  | word (name : Identifier) (other : name.text ≠ "import".toList)
  | sign (c : Char) (isSign : isSign c = true)
  | call (gap : Gap)
  | member (before after : Gap)
  | key (gap : Gap)
  | effect (gap : Gap) (origin : Literal) (terminator : Option Gap)

/-- An item as the source has it. The word `import` of a call, a member, a key or an import for
effect names nothing. -/
def Item.text : Item → List Char
  | .moduleImport statement => statement.text
  | .valueImport statement => statement.text
  | .lineComment body _ => '/' :: '/' :: body
  | .blockComment body _ => '/' :: '*' :: (body ++ ['*', '/'])
  | .quotation literal => literal.text
  | .word name _ => name.text
  | .sign c _ => [c]
  | .call gap => "import".toList ++ gap.write Blank.source ++ ['(']
  | .member before after =>
    "import".toList ++ before.write Blank.source ++
      '.' :: (after.write Blank.source ++ "meta".toList)
  | .key gap => "import".toList ++ gap.write Blank.source ++ [':']
  | .effect gap origin terminator =>
    "import".toList ++ gap.write Blank.source ++ origin.text ++ terminatorText terminator

/-- The text of a source: its items, one line break between any two. -/
def sourceText (items : List Item) : List Char :=
  ['\n'].intercalate (items.map Item.text)

/-! ## What a source imports -/

def renamedWords : Option (Separator × Separator × Identifier) → List (List Char)
  | none => []
  | some (_, _, name) => ["as".toList, name.text]

/-- A specifier as a list of words: `type`, its name, `as`, its other name. -/
def Specifier.words (specifier : Specifier) : List (List Char) :=
  (if specifier.typed.isSome then ["type".toList] else []) ++
    specifier.name.text :: renamedWords specifier.renamed

def Group.specifierWords : Group → List (List (List Char))
  | .whole _ _ name => [[['*'], "as".toList, name.text]]
  | .listed _ first others _ _ => first.words :: others.map (·.specifier.words)

def Bindings.specifierWords : Bindings → List (List (List Char))
  | .single name => [[name.text]]
  | .grouped group => group.specifierWords
  | .both name _ _ group => [name.text] :: group.specifierWords

/-- Puts words in front of those of the first specifier. -/
def leadFirst (lead : List (List Char)) : List (List (List Char)) → List (List (List Char))
  | [] => []
  | words :: others => (lead ++ words) :: others

/-- The words of each specifier of an import from a module; the word `type` in front of the
clause goes with the first. -/
def ModuleImport.specifierWords (statement : ModuleImport) : List (List (List Char)) :=
  leadFirst (if statement.typed.isSome then ["type".toList] else [])
    statement.bindings.specifierWords

/-- The specifiers of an item: their words, one space between any two. -/
def Item.specifiers : Item → List (List Char)
  | .moduleImport statement => statement.specifierWords.map [' '].intercalate
  | .valueImport statement => [statement.name.text]
  | _ => []

/-! ## Plain sources -/

/-- A star stands apart from the word after it, and `from` is not the name of the module. -/
def Group.Plain : Group → Prop
  | .whole afterStar _ name => afterStar ≠ [] ∧ name.text ≠ "from".toList
  | .listed .. => True

/-- No name outside braces is `from`. -/
def Bindings.Plain : Bindings → Prop
  | .single name => name.text ≠ "from".toList
  | .grouped group => group.Plain
  | .both name _ _ group => name.text ≠ "from".toList ∧ group.Plain

/-- No name outside braces is `from`, however the names are laid out. -/
def Group.FromFree : Group → Prop
  | .whole _ _ name => name.text ≠ "from".toList
  | .listed .. => True

def Bindings.FromFree : Bindings → Prop
  | .single name => name.text ≠ "from".toList
  | .grouped group => group.FromFree
  | .both name _ _ group => name.text ≠ "from".toList ∧ group.FromFree

theorem Group.Plain.fromFree {group : Group} (plain : group.Plain) : group.FromFree := by
  cases group with
  | whole afterStar afterAs name => exact plain.2
  | listed afterOpening first others afterLast trailing => exact trivial

theorem Bindings.Plain.fromFree {bindings : Bindings} (plain : bindings.Plain) :
    bindings.FromFree := by
  cases bindings with
  | single name => exact plain
  | grouped group => exact Group.Plain.fromFree plain
  | both name beforeComma afterComma group => exact ⟨plain.1, plain.2.fromFree⟩

/-- The gap between a brace that opens the bindings and the first name. -/
def Bindings.opening : Bindings → Gap
  | .grouped (.listed afterOpening ..) => afterOpening
  | _ => []

/-- No name outside braces is `from`, and the word `type` stands apart from the first name, on
either side of a brace. -/
def ModuleImport.Plain (statement : ModuleImport) : Prop :=
  statement.bindings.Plain ∧
    ∀ gap, statement.typed = some gap → gap ++ statement.bindings.opening ≠ []

/-- The items whose import statements keep `type` and `*` apart from what follows, and do not use
the word `from` as a name outside braces. -/
def Item.Plain : Item → Prop
  | .moduleImport statement => statement.Plain
  | .valueImport statement => statement.name.text ≠ "from".toList
  | _ => True

end ImportAudit.Import.Written
