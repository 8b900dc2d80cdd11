import ImportAudit.Text.Search

/-!
# Words and identifiers

White space in the sense of Unicode, trimming, and the words of a text, which are its runs without
white space. Its identifiers are its runs of identifier characters.
-/

namespace ImportAudit.Text

/-- White space: the blank controls, the plain space, and the Unicode spaces and separators.
The zero-width space and the byte-order mark are not white space. -/
def isSpace (c : Char) : Bool :=
  let n := c.toNat
  (0x09 ≤ n && n ≤ 0x0D) || n == 0x20 || n == 0x85 || n == 0xA0 || n == 0x1680 ||
    (0x2000 ≤ n && n ≤ 0x200A) || n == 0x2028 || n == 0x2029 || n == 0x202F ||
    n == 0x205F || n == 0x3000

def trimChars (text : List Char) : List Char :=
  ((text.dropWhile isSpace).reverse.dropWhile isSpace).reverse

def trim (text : String) : String :=
  String.ofList (trimChars text.toList)

/-- The maximal non-empty runs of characters that pass the test, in order. -/
def runs (test : Char → Bool) (text : List Char) : List (List Char) :=
  match _found : text.dropWhile (fun c => !test c) with
  | [] => []
  | head :: tail => (head :: tail.takeWhile test) :: runs test (tail.dropWhile test)
termination_by text.length
decreasing_by
  have shorter := length_dropWhile_le (fun c => !test c) text
  have tailShorter := length_dropWhile_le test tail
  rw [_found] at shorter
  simp only [List.length_cons] at shorter
  omega

def wordsOf (text : List Char) : List (List Char) :=
  runs (fun c => !isSpace c) text

/-! ## Identifiers -/

/-- A character that may start an identifier: a letter, `_`, `$`, or anything outside ASCII. -/
def isWordStart (c : Char) : Bool :=
  c == '_' || c == '$' || ('a' ≤ c && c ≤ 'z') || ('A' ≤ c && c ≤ 'Z') || 0x80 ≤ c.toNat

def isWordChar (c : Char) : Bool :=
  isWordStart c || ('0' ≤ c && c ≤ '9')

/-- The identifiers of a text: its maximal runs of identifier characters, in order. -/
def identifiers (text : List Char) : List (List Char) :=
  runs isWordChar text

end ImportAudit.Text
