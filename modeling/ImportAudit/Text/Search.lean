/-!
# Search in text

Searching, cutting and splitting text held as a list of characters, and the lines of a source. A
line break is a line feed, a carriage return, or the pair of both.
-/

namespace ImportAudit.Text

/-- Whether `part` occurs in the text; the empty part occurs in every text. -/
def occurs (part : List Char) : List Char → Bool
  | [] => part.isEmpty
  | c :: rest => part.isPrefixOf (c :: rest) || occurs part rest

def endsWith (part text : List Char) : Bool :=
  part.isSuffixOf text

/-- The text up to the first occurrence of `part`, or all of it. -/
def before (part : List Char) : List Char → List Char
  | [] => []
  | c :: rest => if part.isPrefixOf (c :: rest) then [] else c :: before part rest

/-- Removes the occurrences of `part` from left to right; what closes up is not searched again.
Removing the empty part changes nothing. -/
def removeAll (part : List Char) (text : List Char) : List Char :=
  match text with
  | [] => []
  | c :: rest =>
    if !part.isEmpty && part.isPrefixOf (c :: rest) then
      removeAll part (rest.drop (part.length - 1))
    else c :: removeAll part rest
termination_by text.length
decreasing_by
  all_goals simp only [List.length_cons, List.length_drop]; omega

/-- The pieces between the occurrences of a separator; there is always at least one piece. -/
def pieces (separator : Char) : List Char → List (List Char)
  | [] => [[]]
  | c :: rest =>
    if c = separator then [] :: pieces separator rest
    else
      match pieces separator rest with
      | first :: others => (c :: first) :: others
      | [] => [[c]]

theorem length_dropWhile_le (test : Char → Bool) (text : List Char) :
    (text.dropWhile test).length ≤ text.length := by
  induction text with
  | nil => simp
  | cons head tail ih =>
    rw [List.dropWhile_cons]
    split
    · exact Nat.le_succ_of_le ih
    · exact Nat.le_refl _

def contains (text part : String) : Bool :=
  occurs part.toList text.toList

def piecesOf (separator : Char) (text : String) : List String :=
  (pieces separator text.toList).map String.ofList

def replaceChar (old new : Char) (text : String) : String :=
  String.ofList (text.toList.map fun c => if c = old then new else c)

end ImportAudit.Text

namespace ImportAudit.Source

def unifyBreaks : List Char → List Char
  | [] => []
  | '\r' :: '\n' :: rest => '\n' :: unifyBreaks rest
  | '\r' :: rest => '\n' :: unifyBreaks rest
  | c :: rest => c :: unifyBreaks rest

/-- The lines of a source text; a text without a break is one line. -/
def lines (source : List Char) : List (List Char) :=
  Text.pieces '\n' (unifyBreaks source)

end ImportAudit.Source
