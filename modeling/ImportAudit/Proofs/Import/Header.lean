import ImportAudit.Extraction
import ImportAudit.Proofs.Import.StatementScan
import ImportAudit.Proofs.Matching

/-!
# Import headers

Import statements as they are most plainly written: one on a line, single spaces, ASCII names in
which neither `from` nor `import` occurs. Both scans read them alike, so the specifiers of a header
are among the import names of its file in every parse mode.
-/

namespace ImportAudit.Import.Header

open ImportAudit.Text
open ImportAudit.Import.Written (isIdentifier)

/-- An ASCII identifier in which neither `from` nor `import` occurs. -/
def isPlainName (text : List Char) : Bool :=
  isIdentifier text && text.all (fun c => c.toNat < 0x80) &&
    !occurs "from".toList text && !occurs "import".toList text

/-- A name in which no keyword of the scans occurs. -/
structure Name where
  text : List Char
  plain : isPlainName text = true

def Name.string (name : Name) : String :=
  String.ofList name.text

/-- One imported name, perhaps under another name. -/
structure Binding where
  name : Name
  renamed : Option Name

/-- Everything under one name, or a list of bindings in braces. -/
inductive Group where
  | whole (name : Name)
  | listed (first : Binding) (others : List Binding)

/-- What stands between `import` and `from`. -/
inductive Clause where
  | single (name : Name)
  | grouped (group : Group)
  | both (name : Name) (group : Group)

/-- One line of a header. -/
structure Statement where
  clause : Clause
  quote : Char
  origin : List Char
  terminated : Bool
  quoted : quote = '\'' ∨ quote = '"'
  plain : ∀ c ∈ origin, c ≠ quote ∧ c ≠ '\\' ∧ c ≠ '\n' ∧ c ≠ '\r'

/-! ## Text, specifiers and names -/

def Binding.text (binding : Binding) : List Char :=
  match binding.renamed with
  | none => binding.name.text
  | some other => binding.name.text ++ " as ".toList ++ other.text

def Binding.names (binding : Binding) : List (List Char) :=
  binding.name.text :: (binding.renamed.map (·.text)).toList

def Group.text : Group → List Char
  | .whole name => "* as ".toList ++ name.text
  | .listed first others =>
    "\x7b ".toList ++ ", ".toList.intercalate ((first :: others).map (·.text)) ++ " \x7d".toList

def Group.specifiers : Group → List (List Char)
  | .whole name => ["* as ".toList ++ name.text]
  | .listed first others => (first :: others).map (·.text)

def Group.names : Group → List (List Char)
  | .whole name => [name.text]
  | .listed first others => (first :: others).flatMap (·.names)

def Clause.text : Clause → List Char
  | .single name => name.text
  | .grouped group => group.text
  | .both name group => name.text ++ ", ".toList ++ group.text

/-- What a clause names, each with its other name. -/
def Clause.specifiers : Clause → List (List Char)
  | .single name => [name.text]
  | .grouped group => group.specifiers
  | .both name group => name.text :: group.specifiers

def Clause.names : Clause → List (List Char)
  | .single name => [name.text]
  | .grouped group => group.names
  | .both name group => name.text :: group.names

/-- The line of the statement, its terminator included. -/
def Statement.text (statement : Statement) : List Char :=
  "import ".toList ++ statement.clause.text ++ " from ".toList ++
    (statement.quote :: statement.origin ++ [statement.quote]) ++
    (if statement.terminated then [';'] else [])

/-! ## Plain names -/

theorem Name.valid (name : Name) : isIdentifier name.text = true := by
  have plain := name.plain
  simp only [isPlainName, Bool.and_eq_true] at plain
  exact plain.1.1.1

theorem Name.free (name : Name) :
    ¬ "from".toList <:+: name.text ∧ ¬ "import".toList <:+: name.text := by
  have plain := name.plain
  simp only [isPlainName, Bool.and_eq_true, Bool.not_eq_true'] at plain
  exact ⟨not_infix_of_occurs plain.1.2, not_infix_of_occurs plain.2⟩

theorem Name.word (name : Name) :
    ∀ c ∈ name.text, isWordChar c = true ∧ isSpace c = false := by
  have valid := name.valid
  cases shape : name.text with
  | nil => simp
  | cons head tail =>
    rw [shape] at valid
    simp only [isIdentifier, Bool.and_eq_true, List.all_eq_true, Bool.not_eq_true'] at valid
    exact valid.2

theorem Name.ne_nil (name : Name) : name.text ≠ [] := by
  intro empty
  have valid := name.valid
  rw [empty] at valid
  cases valid

theorem Name.not_mem (name : Name) {c : Char} (outside : isWordChar c = false) :
    c ∉ name.text := by
  intro member
  rw [(name.word c member).1] at outside
  cases outside

theorem Name.trimmed (name : Name) : Trimmed name.text := by
  obtain ⟨head, tail, startShape⟩ := List.exists_cons_of_ne_nil name.ne_nil
  obtain ⟨front, last, endShape⟩ := List.eq_nil_or_concat name.text |>.resolve_left name.ne_nil
  rw [List.concat_eq_append] at endShape
  refine ⟨⟨head, tail, startShape, (name.word head ?_).2⟩,
    ⟨front, last, endShape, (name.word last ?_).2⟩⟩
  · rw [startShape]
    exact List.mem_cons_self
  · rw [endShape]
    exact List.mem_append_right front (List.mem_singleton_self last)

/-! ## Specifiers spread over a line -/

/-- A specifier as a line shows it. -/
structure Neat (specifier : List Char) : Prop where
  trimmed : Trimmed specifier
  commaFree : ',' ∉ specifier
  braceFree : ∀ c ∈ specifier, isBrace c = false
  free : ¬ "from".toList <:+: specifier ∧ ¬ "import".toList <:+: specifier

def Spaces (text : List Char) : Prop :=
  ∀ c ∈ text, c = ' '

theorem spaces_nil : Spaces [] := by
  intro c member
  cases member

theorem spaces_one : Spaces [' '] := by
  intro c member
  exact List.mem_singleton.mp member

theorem Spaces.isSpace {text : List Char} (spaces : Spaces text) :
    ∀ c ∈ text, Text.isSpace c = true := by
  intro c member
  rw [spaces c member]
  decide

theorem Spaces.not_mem
    {text : List Char} (spaces : Spaces text) {c : Char} (other : c ≠ ' ') : c ∉ text :=
  fun member => other (spaces c member)

/-- Neat specifiers with commas between them and spaces around them. -/
inductive Spread : List (List Char) → List Char → Prop
  | last {specifier left right : List Char} (neat : Neat specifier) (before : Spaces left)
      (after : Spaces right) : Spread [specifier] (left ++ specifier ++ right)
  | more {specifier left text : List Char} {specifiers : List (List Char)} (neat : Neat specifier)
      (before : Spaces left) (rest : Spread specifiers text) :
      Spread (specifier :: specifiers) (left ++ specifier ++ ',' :: text)

/-- What a spread text is split and trimmed to. -/
theorem Spread.pieces_eq
    {specifiers : List (List Char)} {text : List Char} (spread : Spread specifiers text) :
    ((pieces ',' text).map trimChars).filter (!·.isEmpty) = specifiers := by
  induction spread with
  | @last specifier left right neat before after =>
    have comma : ',' ∉ left ++ specifier ++ right := by
      simp only [List.mem_append, not_or]
      exact ⟨⟨before.not_mem (by decide), neat.commaFree⟩, after.not_mem (by decide)⟩
    obtain ⟨head, tail, shape, _⟩ := neat.trimmed.starts
    rw [pieces_of_free comma, List.map_singleton,
      trimChars_padded before.isSpace after.isSpace neat.trimmed]
    simp [shape]
  | @more specifier left text specifiers neat before rest inductionHypothesis =>
    have comma : ',' ∉ left ++ specifier := by
      simp only [List.mem_append, not_or]
      exact ⟨before.not_mem (by decide), neat.commaFree⟩
    have padded : trimChars (left ++ specifier) = specifier := by
      simpa using trimChars_padded before.isSpace spaces_nil.isSpace neat.trimmed
    obtain ⟨head, tail, shape, _⟩ := neat.trimmed.starts
    rw [pieces_append_separator, pieces_of_free comma, List.singleton_append, List.map_cons,
      padded, List.filter_cons_of_pos (by simp [shape]), inductionHypothesis]

theorem infix_of_spaces_append
    {key left text : List Char} (spaceFree : ' ' ∉ key) (nonempty : key ≠ []) (spaces : Spaces left)
    (present : key <:+: left ++ text) : key <:+: text := by
  induction left with
  | nil => exact present
  | cons head tail inductionHypothesis =>
    have isSpace : head = ' ' := spaces head List.mem_cons_self
    subst isSpace
    have split : key <:+: [] ++ ' ' :: (tail ++ text) := present
    rcases infix_of_append_cons spaceFree split with none | later
    · exact absurd (List.eq_nil_of_infix_nil none) nonempty
    · exact inductionHypothesis (fun c member => spaces c (List.mem_cons_of_mem _ member)) later

theorem infix_of_append_spaces
    {key right text : List Char} (spaceFree : ' ' ∉ key) (nonempty : key ≠ [])
    (spaces : Spaces right) (present : key <:+: text ++ right) : key <:+: text := by
  cases right with
  | nil => simpa using present
  | cons head tail =>
    have isSpace : head = ' ' := spaces head List.mem_cons_self
    subst isSpace
    rcases infix_of_append_cons spaceFree present with here | later
    · exact here
    · have tailSpaces : Spaces tail := fun c member => spaces c (List.mem_cons_of_mem _ member)
      have onlySpaces : key <:+: tail ++ [] := by simpa using later
      have none := infix_of_spaces_append spaceFree nonempty tailSpaces onlySpaces
      exact absurd (List.eq_nil_of_infix_nil none) nonempty

/-- A part without spaces and commas occurs in a spread text only in a specifier. -/
theorem Spread.absent
    {key text : List Char} {specifiers : List (List Char)} (spread : Spread specifiers text)
    (spaceFree : ' ' ∉ key) (commaFree : ',' ∉ key) (nonempty : key ≠ [])
    (clean : ∀ specifier, Neat specifier → ¬ key <:+: specifier) : ¬ key <:+: text := by
  induction spread with
  | last neat before after =>
    intro present
    rw [List.append_assoc] at present
    have right := infix_of_spaces_append spaceFree nonempty before present
    exact clean _ neat (infix_of_append_spaces spaceFree nonempty after right)
  | more neat before rest inductionHypothesis =>
    intro present
    rcases infix_of_append_cons commaFree present with here | later
    · exact clean _ neat (infix_of_spaces_append spaceFree nonempty before here)
    · exact inductionHypothesis later

/-! ## Clauses spread over a line -/

/-- Two neat texts with one space between them are neat. -/
theorem Neat.append_space
    {front back : List Char} (frontNeat : Neat front) (backNeat : Neat back) :
    Neat (front ++ ' ' :: back) where
  trimmed := by
    obtain ⟨head, tail, startShape, headSolid⟩ := frontNeat.trimmed.starts
    obtain ⟨middle, last, endShape, lastSolid⟩ := backNeat.trimmed.ends
    refine ⟨⟨head, tail ++ ' ' :: back, by rw [startShape]; rfl, headSolid⟩, ?_⟩
    exact ⟨front ++ ' ' :: middle, last, by rw [endShape]; simp, lastSolid⟩
  commaFree := by
    simp only [List.mem_append, List.mem_cons, not_or]
    exact ⟨frontNeat.commaFree, by decide, backNeat.commaFree⟩
  braceFree := by
    intro c member
    rcases List.mem_append.mp member with inFront | inBack
    · exact frontNeat.braceFree c inFront
    · rcases List.mem_cons.mp inBack with rfl | later
      · rfl
      · exact backNeat.braceFree c later
  free := by
    refine ⟨fun present => ?_, fun present => ?_⟩
    · rcases infix_of_append_cons (by decide) present with inFront | inBack
      · exact frontNeat.free.1 inFront
      · exact backNeat.free.1 inBack
    · rcases infix_of_append_cons (by decide) present with inFront | inBack
      · exact frontNeat.free.2 inFront
      · exact backNeat.free.2 inBack

theorem Name.neat (name : Name) : Neat name.text where
  trimmed := name.trimmed
  commaFree := name.not_mem (by decide)
  braceFree := by
    intro c member
    rw [← Bool.not_eq_true]
    intro brace
    rcases (by simpa [isBrace] using brace : c = '{' ∨ c = '}') with rfl | rfl
    · exact name.not_mem (by decide) member
    · exact name.not_mem (by decide) member
  free := name.free

theorem neat_star : Neat ['*'] where
  trimmed := ⟨⟨'*', [], rfl, by decide⟩, ⟨[], '*', rfl, by decide⟩⟩
  commaFree := by decide
  braceFree := by simp [isBrace]
  free := by decide

theorem neat_as : Neat "as".toList where
  trimmed := ⟨⟨'a', ['s'], rfl, by decide⟩, ⟨['a'], 's', rfl, by decide⟩⟩
  commaFree := by decide
  braceFree := by simp [isBrace]
  free := by decide

theorem neat_renamed
    {front : List Char} (frontNeat : Neat front) (name : Name) :
    Neat (front ++ " as ".toList ++ name.text) := by
  have shape : front ++ " as ".toList ++ name.text =
      front ++ ' ' :: ("as".toList ++ ' ' :: name.text) := by
    simp
  rw [shape]
  exact frontNeat.append_space (neat_as.append_space name.neat)

theorem Binding.neat (binding : Binding) : Neat binding.text := by
  rcases binding with ⟨name, _ | other⟩
  · exact name.neat
  · exact neat_renamed name.neat other

/-- Neat texts joined by a comma and a space are spread, whatever spaces surround them. -/
theorem spread_listed
    {first : List Char} {others : List (List Char)} (firstNeat : Neat first)
    (othersNeat : ∀ text ∈ others, Neat text) {left right : List Char} (before : Spaces left)
    (after : Spaces right) :
    Spread (first :: others) (left ++ ", ".toList.intercalate (first :: others) ++ right) := by
  induction others generalizing first left with
  | nil => simpa [List.intercalate] using Spread.last firstNeat before after
  | cons second rest inductionHypothesis =>
    have later := inductionHypothesis (othersNeat second List.mem_cons_self)
      (fun text member => othersNeat text (List.mem_cons_of_mem second member)) spaces_one
    have shape : left ++ ", ".toList.intercalate (first :: second :: rest) ++ right =
        left ++ first ++ ',' :: ([' '] ++ ", ".toList.intercalate (second :: rest) ++ right) := by
      simp [List.intercalate]
    rw [shape]
    exact Spread.more firstNeat before later

theorem Spaces.append
    {left right : List Char} (leftSpaces : Spaces left) (rightSpaces : Spaces right) :
    Spaces (left ++ right) := by
  intro c member
  rcases List.mem_append.mp member with inLeft | inRight
  · exact leftSpaces c inLeft
  · exact rightSpaces c inRight

theorem Spread.braceFree
    {specifiers : List (List Char)} {text : List Char} (spread : Spread specifiers text) :
    ∀ c ∈ text, isBrace c = false := by
  have spaceFree : ∀ {spaces : List Char}, Spaces spaces → ∀ c ∈ spaces, isBrace c = false := by
    intro spaces only c member
    rw [only c member]
    rfl
  induction spread with
  | last neat before after =>
    intro c member
    rcases List.mem_append.mp member with inFront | inRight
    · rcases List.mem_append.mp inFront with inLeft | inSpecifier
      · exact spaceFree before c inLeft
      · exact neat.braceFree c inSpecifier
    · exact spaceFree after c inRight
  | more neat before rest inductionHypothesis =>
    intro c member
    rcases List.mem_append.mp member with inFront | inRest
    · rcases List.mem_append.mp inFront with inLeft | inSpecifier
      · exact spaceFree before c inLeft
      · exact neat.braceFree c inSpecifier
    · rcases List.mem_cons.mp inRest with rfl | later
      · rfl
      · exact inductionHypothesis c later

theorem dropBraces_enclosed
    {text : List Char} (free : ∀ c ∈ text, isBrace c = false) :
    dropBraces ("\x7b ".toList ++ text ++ " \x7d".toList) = [' '] ++ text ++ [' '] := by
  have opening : dropBraces "\x7b ".toList = [' '] := by decide
  have closing : dropBraces " \x7d".toList = [' '] := by decide
  rw [dropBraces_append, dropBraces_append, opening, closing, dropBraces_of_free free]

/-- A group without its braces is its specifiers with commas between them. -/
theorem Group.spread (group : Group) {left : List Char} (before : Spaces left) :
    Spread group.specifiers (left ++ dropBraces group.text ++ [' ']) := by
  cases group with
  | whole name =>
    have neat : Neat ("* as ".toList ++ name.text) := neat_renamed neat_star name
    have kept : dropBraces (Group.whole name).text = "* as ".toList ++ name.text :=
      dropBraces_of_free neat.braceFree
    rw [kept]
    exact Spread.last neat before spaces_one
  | listed first others =>
    have firstNeat := first.neat
    have othersNeat : ∀ text ∈ others.map (·.text), Neat text := by
      intro text member
      obtain ⟨binding, _, rfl⟩ := List.mem_map.mp member
      exact binding.neat
    have listFree := (spread_listed firstNeat othersNeat spaces_nil spaces_nil).braceFree
    rw [List.nil_append, List.append_nil] at listFree
    have shape : dropBraces (Group.listed first others).text =
        [' '] ++ ", ".toList.intercalate (first.text :: others.map (·.text)) ++ [' '] :=
      dropBraces_enclosed listFree
    have whole := spread_listed firstNeat othersNeat (before.append spaces_one)
      (spaces_one.append spaces_one)
    rw [shape]
    simpa [Group.specifiers] using whole

/-- Without its braces a clause shows its specifiers, spread out. -/
theorem Clause.spread (clause : Clause) :
    Spread clause.specifiers (dropBraces clause.text ++ [' ']) := by
  cases clause with
  | single name =>
    rw [Clause.text, dropBraces_of_free name.neat.braceFree]
    exact Spread.last name.neat spaces_nil spaces_one
  | grouped group => exact group.spread spaces_nil
  | both name group =>
    have shape : dropBraces (Clause.both name group).text ++ [' '] =
        [] ++ name.text ++ ',' :: ([' '] ++ dropBraces group.text ++ [' ']) := by
      have nameFree := dropBraces_of_free name.neat.braceFree
      have commaFree : dropBraces ", ".toList = ", ".toList := by decide
      simp only [Clause.text, dropBraces_append, nameFree, commaFree]
      simp
    rw [shape]
    exact Spread.more name.neat spaces_nil (group.spread spaces_one)

/-! ## The line scan -/

theorem infix_dropBraces
    {key text : List Char} (free : ∀ c ∈ key, isBrace c = false) (present : key <:+: text) :
    key <:+: dropBraces text := by
  have kept := present.filter (fun c => !isBrace c)
  rwa [← dropBraces, dropBraces_of_free free] at kept

theorem Clause.import_clear (clause : Clause) : Clear "import".toList (clause.text ++ [' ']) := by
  refine Clear.append ?_ (by decide) ⟨by decide, by simp⟩
  intro present
  have inDropped := infix_dropBraces (by simp [isBrace]) present
  refine clause.spread.absent (by decide) (by decide) (by decide)
    (fun specifier neat => neat.free.2) ?_
  exact inDropped.trans (List.prefix_append _ _).isInfix

theorem Clause.from_clear (clause : Clause) :
    Clear "from".toList (dropBraces clause.text ++ [' ']) := by
  refine ⟨clause.spread.absent (by decide) (by decide) (by decide)
    (fun specifier neat => neat.free.1), ?_⟩
  intro c last
  have isSpace : c = ' ' := by simpa using last.symm
  rw [isSpace]
  decide

theorem removeAll_header (clause : Clause) (rest : List Char) :
    removeAll "import ".toList
        ("import ".toList ++ ((clause.text ++ [' ']) ++ ("from ".toList ++ rest))) =
      (clause.text ++ [' ']) ++ ("from ".toList ++ removeAll "import ".toList rest) := by
  -- The clause may hold the space that ends the removed part, but not the word in front of it.
  have nonempty : "import ".toList ≠ [] := by decide
  have starts : "import".toList <+: "import ".toList := by decide
  have fromClear : Clear "import".toList "from ".toList := ⟨by decide, by simp⟩
  rw [removeAll_self nonempty, removeAll_append starts clause.import_clear,
    removeAll_append starts fromClear]

theorem before_header (clause : Clause) (rest : List Char) :
    before "from".toList (dropBraces ((clause.text ++ [' ']) ++ ("from ".toList ++ rest))) =
      dropBraces clause.text ++ [' '] := by
  have nonempty : "from".toList ≠ [] := by decide
  have spaceKept : dropBraces [' '] = [' '] := rfl
  have fromKept : dropBraces "from ".toList = "from".toList ++ [' '] := by decide
  rw [dropBraces_append, dropBraces_append, dropBraces_append, spaceKept, fromKept,
    before_append clause.from_clear, List.append_assoc "from".toList, before_self nonempty,
    List.append_nil]

/-- The line scan reads a statement of a header. -/
theorem lineSpecifiers_text (statement : Statement) :
    lineSpecifiers statement.text = statement.clause.specifiers := by
  have shape : ∃ rest, statement.text =
      "import ".toList ++ ((statement.clause.text ++ [' ']) ++ ("from ".toList ++ rest)) := by
    refine ⟨statement.quote :: statement.origin ++ [statement.quote] ++
      (if statement.terminated then [';'] else []), ?_⟩
    have spaced : " from ".toList = [' '] ++ "from ".toList := by decide
    unfold Statement.text
    rw [spaced]
    simp only [List.append_assoc]
  obtain ⟨rest, shape⟩ := shape
  rw [lineSpecifiers, lineClause, shape, removeAll_header, before_header,
    statement.clause.spread.pieces_eq]

/-! ## The statement scan

A statement of a header is one of the grammar of written sources, laid out with single spaces. -/

def Name.written (name : Name) : Written.Identifier :=
  ⟨name.text, name.valid⟩

def oneSpace : Written.Separator :=
  ⟨[.space], List.cons_ne_nil _ _⟩

def Binding.written (binding : Binding) : Written.Specifier :=
  ⟨none, binding.name.written,
    binding.renamed.map fun other => (oneSpace, oneSpace, other.written)⟩

def Group.written : Group → Written.Group
  | .whole name => .whole [.space] oneSpace name.written
  | .listed first others =>
    .listed [.space] first.written (others.map fun binding => ⟨[], [.space], binding.written⟩)
      [.space] none

def Clause.written : Clause → Written.Bindings
  | .single name => .single name.written
  | .grouped group => .grouped group.written
  | .both name group => .both name.written [] [.space] group.written

def Statement.literal (statement : Statement) : Written.Literal where
  quote := statement.quote
  body := statement.origin
  quoted := by
    rcases statement.quoted with same | same
    · rw [same]
      rfl
    · rw [same]
      rfl
  plain := by
    intro c member
    obtain ⟨notQuote, notEscape, oneLine, _⟩ := statement.plain c member
    exact ⟨notEscape, notQuote, fun lineBreak => absurd lineBreak oneLine⟩

/-- The statement in the terms of the grammar. -/
def Statement.written (statement : Statement) : Written.ModuleImport where
  afterImport := [.space]
  typed := none
  bindings := statement.clause.written
  beforeFrom := [.space]
  afterFrom := [.space]
  origin := statement.literal
  terminator := if statement.terminated then some [] else none
  startApart := fun _ => List.cons_ne_nil _ _
  markApart := fun _ => nofun
  endApart := fun _ => List.cons_ne_nil _ _

theorem Binding.write_written (binding : Binding) :
    binding.written.write Written.Blank.source = binding.text := by
  rcases binding with ⟨name, _ | other⟩
  · simp [Binding.written, Binding.text, Written.Specifier.write, Written.writeTyped,
      Written.writeRenamed, Name.written]
  · simp [Binding.written, Binding.text, Written.Specifier.write, Written.writeTyped,
      Written.writeRenamed, Name.written, oneSpace, Written.Separator.write, Written.Gap.write,
      Written.Blank.source]

theorem write_others (first : List Char) (others : List Binding) :
    first ++ (others.map fun binding =>
        (⟨[], [.space], binding.written⟩ : Written.Further)).flatMap
          (Written.Further.write Written.Blank.source) =
      ", ".toList.intercalate (first :: others.map (·.text)) := by
  induction others generalizing first with
  | nil => simp [List.intercalate]
  | cons second rest inductionHypothesis =>
    have joined : ", ".toList.intercalate (first :: (second :: rest).map (·.text)) =
        first ++ (", ".toList ++ ", ".toList.intercalate (second.text :: rest.map (·.text))) := by
      simp [List.intercalate]
    rw [joined, ← inductionHypothesis second.text, List.map_cons, List.flatMap_cons,
      Written.Further.write, second.write_written]
    simp [Written.Gap.write, Written.Blank.source]

theorem Group.write_written (group : Group) :
    group.written.write Written.Blank.source = group.text := by
  cases group with
  | whole name => rfl
  | listed first others =>
    have inside := write_others first.text others
    change _ = "\x7b ".toList ++ ", ".toList.intercalate (first.text :: others.map (·.text)) ++
      " \x7d".toList
    rw [← inside, Group.written, Written.Group.write, first.write_written]
    simp [Written.Gap.write, Written.Blank.source, Written.writeTrailing]

theorem Clause.write_written (clause : Clause) :
    clause.written.write Written.Blank.source = clause.text := by
  cases clause with
  | single name => rfl
  | grouped group => exact group.write_written
  | both name group =>
    simp [Clause.written, Written.Bindings.write, Clause.text, group.write_written, Name.written,
      Written.Gap.write, Written.Blank.source]

theorem Statement.text_written (statement : Statement) :
    statement.written.text = statement.text := by
  have ending : Written.terminatorText (if statement.terminated then some [] else none) =
      if statement.terminated then [';'] else [] := by
    cases statement.terminated
    · rfl
    · rfl
  have space : Written.Gap.write Written.Blank.source [.space] = [' '] := rfl
  have importSpaced : "import ".toList = "import".toList ++ [' '] := by decide
  have fromSpaced : " from ".toList = [' '] ++ ("from".toList ++ [' ']) := by decide
  unfold Written.ModuleImport.text Written.ModuleImport.writeClause Statement.text
  simp only [Statement.written, ending, statement.clause.write_written, space,
    Written.writeMark, Written.Literal.text, Statement.literal]
  rw [importSpaced, fromSpaced]
  simp only [List.append_assoc, List.nil_append]

theorem Name.ne_from (name : Name) : name.text ≠ "from".toList := by
  intro same
  exact name.free.1 (same ▸ List.infix_refl _)

theorem Statement.written_plain (statement : Statement) : statement.written.Plain := by
  refine ⟨?_, fun gap typed => nomatch typed⟩
  have groupPlain : ∀ group : Group, group.written.Plain := by
    intro group
    cases group with
    | whole name => exact ⟨List.cons_ne_nil _ _, name.ne_from⟩
    | listed first others => trivial
  change statement.clause.written.Plain
  cases statement.clause with
  | single name => exact name.ne_from
  | grouped group => exact groupPlain group
  | both name group => exact ⟨name.ne_from, groupPlain group⟩

theorem Binding.words_written (binding : Binding) :
    [' '].intercalate binding.written.words = binding.text := by
  rcases binding with ⟨name, _ | other⟩
  · simp [Binding.written, Written.Specifier.words, Written.renamedWords, Name.written,
      Binding.text, List.intercalate]
  · simp [Binding.written, Written.Specifier.words, Written.renamedWords, Name.written,
      Binding.text, List.intercalate]

theorem Group.specifiers_written (group : Group) :
    group.written.specifierWords.map [' '].intercalate = group.specifiers := by
  cases group with
  | whole name =>
    simp [Group.written, Written.Group.specifierWords, Group.specifiers, Name.written,
      List.intercalate]
  | listed first others =>
    simp [Group.written, Written.Group.specifierWords, Group.specifiers, first.words_written,
      Function.comp_def, Binding.words_written]

theorem Statement.specifiers_written (statement : Statement) :
    statement.written.specifierWords.map [' '].intercalate = statement.clause.specifiers := by
  have untouched : statement.written.specifierWords = statement.clause.written.specifierWords := by
    change Written.leadFirst [] statement.clause.written.specifierWords = _
    cases statement.clause.written.specifierWords <;> rfl
  rw [untouched]
  cases statement.clause with
  | single name => simp [Clause.written, Written.Bindings.specifierWords, Clause.specifiers,
      Name.written, List.intercalate]
  | grouped group => exact group.specifiers_written
  | both name group =>
    simp [Clause.written, Written.Bindings.specifierWords, Clause.specifiers, Name.written,
      List.intercalate, ← group.specifiers_written]

/-- The statement scan reads a statement of a header, whatever follows it. -/
theorem walk_text (statement : Statement) (rest : List Char) :
    walk false (statement.text ++ rest) = statement.clause.specifiers ++ walk false rest := by
  rw [← statement.text_written, walk_moduleImport statement.written_plain,
    statement.specifiers_written]

/-! ## Headers -/

def Opens (statements : List Statement) (source : List Char) : Prop :=
  statements.map (·.text) <+: Source.lines source

/-- The statement scan reads the statements of a header one after the other and goes on behind
them. -/
theorem walk_header (statements : List Statement) (rest : List (List Char)) :
    walk false (['\n'].intercalate (statements.map (·.text) ++ rest)) =
      statements.flatMap (·.clause.specifiers) ++ walk false (['\n'].intercalate rest) := by
  induction statements with
  | nil => rfl
  | cons first others inductionHypothesis =>
    -- Behind the first statement the text ends, or it goes on with a line break.
    have passed : ∃ later, ['\n'].intercalate ((first :: others).map (·.text) ++ rest) =
          first.text ++ later ∧
        walk false later = walk false (['\n'].intercalate (others.map (·.text) ++ rest)) := by
      cases lines : others.map (·.text) ++ rest with
      | nil => exact ⟨[], by simp [lines], rfl⟩
      | cons second more =>
        refine ⟨'\n' :: ['\n'].intercalate (second :: more), ?_, walk_blank .lineBreak false _⟩
        simp [lines, List.intercalate]
    obtain ⟨later, shape, goesOn⟩ := passed
    rw [shape, walk_text, goesOn, inductionHypothesis, List.flatMap_cons, List.append_assoc]

/-- What the statement scan reads of a source that starts with a header. -/
theorem scanStatements_of_lines
    {statements : List Statement} {rest : List (List Char)} {source : List Char}
    (lines : Source.lines source = statements.map (·.text) ++ rest) :
    scanStatements source =
      statements.flatMap (·.clause.specifiers) ++ walk false (['\n'].intercalate rest) := by
  rw [scanStatements, ← intercalate_pieces '\n' (Source.unifyBreaks source), ← Source.lines,
    lines, walk_header]

theorem mem_scanStatements
    {statements : List Statement} {source : List Char} (opens : Opens statements source)
    {statement : Statement} (member : statement ∈ statements) {specifier : List Char}
    (named : specifier ∈ statement.clause.specifiers) : specifier ∈ scanStatements source := by
  obtain ⟨rest, lines⟩ := opens
  rw [scanStatements_of_lines lines.symm]
  exact List.mem_append_left _ (List.mem_flatMap.mpr ⟨statement, member, named⟩)

theorem Statement.isPrefixOf_text (statement : Statement) :
    "import".toList.isPrefixOf statement.text = true ∧
      "const".toList.isPrefixOf statement.text = false := by
  unfold Statement.text
  exact ⟨rfl, rfl⟩

/-- What the line scan reads of a source that starts with a header. -/
theorem scanLines_of_lines
    {statements : List Statement} {rest : List (List Char)} {source : List Char}
    (lines : Source.lines source = statements.map (·.text) ++ rest) :
    scanLines source =
      statements.flatMap (·.clause.specifiers) ++
        ((headerLines rest).filter ("import".toList.isPrefixOf ·)).flatMap lineSpecifiers := by
  have early : ∀ line ∈ statements.map (·.text), (!"const".toList.isPrefixOf line) = true := by
    intro line isText
    obtain ⟨statement, _, rfl⟩ := List.mem_map.mp isText
    rw [statement.isPrefixOf_text.2, Bool.not_false]
  have imports : (statements.map (·.text)).filter ("import".toList.isPrefixOf ·) =
      statements.map (·.text) := by
    refine List.filter_eq_self.mpr fun line isText => ?_
    obtain ⟨statement, _, rfl⟩ := List.mem_map.mp isText
    exact statement.isPrefixOf_text.1
  have header : headerLines (statements.map (·.text) ++ rest) =
      statements.map (·.text) ++ headerLines rest :=
    List.takeWhile_append_of_pos early
  rw [scanLines, lines, header, List.filter_append, imports, List.flatMap_append,
    List.flatMap_map]
  simp only [lineSpecifiers_text]

theorem mem_scanLines
    {statements : List Statement} {source : List Char} (opens : Opens statements source)
    {statement : Statement} (member : statement ∈ statements) {specifier : List Char}
    (named : specifier ∈ statement.clause.specifiers) : specifier ∈ scanLines source := by
  obtain ⟨rest, lines⟩ := opens
  rw [scanLines_of_lines lines.symm]
  exact List.mem_append_left _ (List.mem_flatMap.mpr ⟨statement, member, named⟩)

theorem mem_importNames
    {statements : List Statement} {source : String} (opens : Opens statements source.toList)
    {statement : Statement} (member : statement ∈ statements) {specifier : List Char}
    (named : specifier ∈ statement.clause.specifiers) (mode : ParseMode) :
    String.ofList specifier ∈ importNames mode source := by
  have inLines := mem_scanLines opens member named
  cases mode with
  | statement => exact List.mem_map_of_mem (mem_scanStatements opens member named)
  | line => exact List.mem_map_of_mem inLines
  | unrecognised label => exact List.mem_map_of_mem inLines

/-! ## Names in specifiers -/

open Usage (StandsIn)

theorem standsIn_whole (name : List Char) : StandsIn name name :=
  ⟨[], [], by simp, by simp, rfl⟩

theorem standsIn_renamed (front name : List Char) :
    StandsIn name (front ++ " as ".toList ++ name) := by
  refine ⟨front ++ " as ".toList, [], by simp, fun last found => ?_, rfl⟩
  have space : ' ' = last := by simpa using found
  rw [← space]
  decide

theorem Binding.standsIn
    (binding : Binding) {name : List Char} (named : name ∈ binding.names) :
    StandsIn name binding.text := by
  rcases binding with ⟨first, _ | other⟩
  · obtain rfl : name = first.text := by simpa [Binding.names] using named
    exact standsIn_whole _
  · rcases (by simpa [Binding.names] using named : name = first.text ∨ name = other.text) with
      rfl | rfl
    · exact ⟨[], " as ".toList ++ other.text, by simp [Binding.text], by simp, rfl⟩
    · exact standsIn_renamed first.text other.text

theorem Group.standsIn
    (group : Group) {name : List Char} (named : name ∈ group.names) :
    ∃ specifier ∈ group.specifiers, StandsIn name specifier := by
  cases group with
  | whole other =>
    obtain rfl : name = other.text := by simpa [Group.names] using named
    refine ⟨"* as ".toList ++ other.text, List.mem_singleton_self _, ?_⟩
    exact standsIn_renamed ['*'] other.text
  | listed first others =>
    obtain ⟨binding, member, inBinding⟩ := List.mem_flatMap.mp named
    exact ⟨binding.text, List.mem_map_of_mem member, binding.standsIn inBinding⟩

/-- Every identifier of a clause stands in one of its specifiers. -/
theorem Clause.standsIn
    (clause : Clause) {name : List Char} (named : name ∈ clause.names) :
    ∃ specifier ∈ clause.specifiers, StandsIn name specifier := by
  cases clause with
  | single other =>
    obtain rfl : name = other.text := by simpa [Clause.names] using named
    exact ⟨other.text, List.mem_singleton_self _, standsIn_whole _⟩
  | grouped group => exact group.standsIn named
  | both other group =>
    rcases List.mem_cons.mp named with rfl | inGroup
    · exact ⟨other.text, List.mem_cons_self, standsIn_whole _⟩
    · obtain ⟨specifier, member, stands⟩ := group.standsIn inGroup
      exact ⟨specifier, List.mem_cons_of_mem _ member, stands⟩

end ImportAudit.Import.Header
