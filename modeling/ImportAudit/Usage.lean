import ImportAudit.Fault
import ImportAudit.Index
import ImportAudit.Text.Word

/-!
# Usage of declared names

Which declared names no import mentions. A name is compared with import specifiers in one of
three ways; only specifiers count as uses, never the declarations themselves.
-/

namespace ImportAudit

/-- How a declared name is compared with an import specifier. -/
inductive MatchMode
  | substring
  | exact
  | word
  deriving DecidableEq, Repr

namespace MatchMode

def label : MatchMode → String
  | substring => "substring"
  | exact => "exact"
  | word => "word"

/-- The mode with exactly this label; the empty label selects `substring`. -/
def ofLabel (text : String) : Except Fault MatchMode :=
  if text = "" || text = "substring" then .ok substring
  else if text = "exact" then .ok exact
  else if text = "word" then .ok word
  else .error (.unknownMatchMode text)

/-- Reads a mode from a setting: surrounding white space and case do not matter, and an empty
value selects `substring`. -/
def parse (value : String) : Except Fault MatchMode :=
  let name := Text.lower (Text.trim value)
  if name = "" || name = "substring" then .ok substring
  else if name = "exact" then .ok exact
  else if name = "word" then .ok word
  else .error (.unknownMatchMode value)

end MatchMode

namespace Usage

/-- Whether an identifier could not go on at the start of the text. -/
def endsWord : List Char → Bool
  | [] => true
  | c :: _ => !Text.isWordChar c

/-- Whether the name occurs in the text with no identifier character on either side. `attached`
says that one stands before the text. -/
def occursAsWord (name : List Char) (attached : Bool) : List Char → Bool
  | [] => false
  | c :: rest =>
    (!attached && name.isPrefixOf (c :: rest) && endsWord ((c :: rest).drop name.length)) ||
      occursAsWord name (Text.isWordChar c) rest

/-- Whether the specifier uses the name. The empty name is in every specifier as a substring, and
in none as a word or an identifier. -/
def matches? (mode : MatchMode) (specifier name : String) : Bool :=
  match mode with
  | .substring => Text.contains specifier name
  | .exact => (Text.identifiers specifier.toList).contains name.toList
  | .word => name != "" && occursAsWord name.toList false specifier.toList

def isUsed (mode : MatchMode) (surface : List String) (name : String) : Bool :=
  surface.any fun specifier => matches? mode specifier name

/-- The names that no specifier of the surface uses, in order and with duplicates. -/
def unused (mode : MatchMode) (surface names : List String) : List String :=
  names.filter fun name => !isUsed mode surface name

/-- The unused names of a project: declarations and components, each in its own order. -/
structure Findings where
  declarations : List String
  components : List String
  deriving DecidableEq, Repr, Inhabited

def findings (mode : MatchMode) (index : Index) : Findings :=
  { declarations := unused mode index.surface (index.declarationsInOrder.map (·.name))
    components := unused mode index.surface (index.components.map (·.name)) }

end Usage

end ImportAudit
