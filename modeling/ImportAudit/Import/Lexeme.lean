import ImportAudit.Text.Word

/-!
# Lexical elements of source text

The lexical elements that the statement scan steps over: comments, quoted text, words and blanks.
Every function here takes the text from a position on and returns the text that is left; the
length lemmas say that nothing is ever added, which makes the scans end.
-/

namespace ImportAudit.Import

open ImportAudit.Text

def isQuote (c : Char) : Bool :=
  c == '\'' || c == '"' || c == '\x60'

/-- The text after the current line, its break consumed. -/
def afterLine : List Char → List Char
  | [] => []
  | c :: rest => if c = '\n' then rest else afterLine rest

def afterBlock : List Char → List Char
  | [] => []
  | '*' :: '/' :: rest => rest
  | _ :: rest => afterBlock rest

/-- The text after a literal, given the text after its opening quote. A backslash protects the
next character. A literal in single or double quotes that is not closed ends before the line
break; a template literal goes on. -/
def afterLiteral (quote : Char) : List Char → List Char
  | [] => []
  | '\\' :: _ :: rest => afterLiteral quote rest
  | ['\\'] => []
  | c :: rest =>
    if c = quote then rest
    else if c = '\n' && quote != '\x60' then c :: rest
    else afterLiteral quote rest

/-- The text after the next `;` or line break. -/
def afterStatement : List Char → List Char
  | [] => []
  | c :: rest => if c = ';' || c = '\n' then rest else afterStatement rest

/-- Consumes spaces and tabs up to a `;` and the `;` itself; without a `;` nothing is consumed. -/
def skipTerminator (text : List Char) : List Char :=
  match text.dropWhile (fun c => c == ' ' || c == '\t') with
  | ';' :: rest => rest
  | _ => text

def wordOf (text : List Char) : List Char :=
  text.takeWhile isWordChar

def afterWord (text : List Char) : List Char :=
  text.dropWhile isWordChar

/-! ## Nothing is added -/

theorem length_afterLine_le (text : List Char) : (afterLine text).length ≤ text.length := by
  induction text with
  | nil => simp [afterLine]
  | cons head tail ih =>
    rw [afterLine]
    split
    · simp
    · exact Nat.le_succ_of_le ih

theorem length_afterBlock_le (text : List Char) : (afterBlock text).length ≤ text.length := by
  fun_induction afterBlock text with
  | case1 => simp
  | case2 rest => simp only [List.length_cons]; omega
  | case3 head rest _ ih => exact Nat.le_succ_of_le ih

theorem length_afterLiteral_le (quote : Char) (text : List Char) :
    (afterLiteral quote text).length ≤ text.length := by
  fun_induction afterLiteral quote text with
  | case1 => simp
  | case2 skipped rest ih => simp only [List.length_cons]; omega
  | case3 => simp
  | case4 rest _ _ => simp
  | case5 head rest _ _ _ _ => simp
  | case6 head rest _ _ _ _ ih => exact Nat.le_succ_of_le ih

theorem length_afterStatement_le (text : List Char) :
    (afterStatement text).length ≤ text.length := by
  induction text with
  | nil => simp [afterStatement]
  | cons head tail ih =>
    rw [afterStatement]
    split
    · simp
    · exact Nat.le_succ_of_le ih

theorem length_skipTerminator_le (text : List Char) :
    (skipTerminator text).length ≤ text.length := by
  have blanks := length_dropWhile_le (fun c => c == ' ' || c == '\t') text
  unfold skipTerminator
  split
  · rename_i rest found
    rw [found] at blanks
    simp only [List.length_cons] at blanks
    omega
  · exact Nat.le_refl _

theorem length_afterWord_lt {head : Char} (tail : List Char) (start : isWordStart head = true) :
    (afterWord (head :: tail)).length < (head :: tail).length := by
  have shorter := length_dropWhile_le isWordChar tail
  have isWord : isWordChar head = true := by simp [isWordChar, start]
  simp only [afterWord, List.dropWhile_cons, isWord, if_true, List.length_cons]
  omega

def skipBlanks (text : List Char) : List Char :=
  match text with
  | '/' :: '/' :: rest => skipBlanks (afterLine rest)
  | '/' :: '*' :: rest => skipBlanks (afterBlock rest)
  | c :: rest =>
    if c = ' ' || c = '\t' || c = '\n' || c = '\r' then skipBlanks rest else c :: rest
  | [] => []
termination_by text.length
decreasing_by
  · have := length_afterLine_le rest
    simp only [List.length_cons]; omega
  · have := length_afterBlock_le rest
    simp only [List.length_cons]; omega
  · simp

theorem length_skipBlanks_le (text : List Char) : (skipBlanks text).length ≤ text.length := by
  fun_induction skipBlanks text with
  | case1 rest ih =>
    have := length_afterLine_le rest
    simp only [List.length_cons]; omega
  | case2 rest ih =>
    have := length_afterBlock_le rest
    simp only [List.length_cons]; omega
  | case3 head rest _ _ _ ih => exact Nat.le_succ_of_le ih
  | case4 => exact Nat.le_refl _
  | case5 => exact Nat.le_refl _

end ImportAudit.Import
