import ImportAudit.Text.Word

/-!
# Exported declarations

Exported declarations. A marker is a literal token that introduces a declaration; a line that
contains one declares at most one name, which is what the line leaves between the marker and the
body. Declarations spread over several lines are not recognised.
-/

namespace ImportAudit

/-- A literal token that introduces an exported declaration, and the kind that it declares. -/
structure Marker where
  token : String
  kind : String
  deriving DecidableEq, Repr, Inhabited

/-- The markers of a plain project: its own `intraface` keyword and type aliases. -/
def Marker.defaults : List Marker :=
  [⟨"export intraface", "interface"⟩, ⟨"export type", "type"⟩]

/-- One exported declaration, with the line on which its marker stands, counted from one. -/
structure Declaration where
  file : String
  name : String
  kind : String
  line : Nat
  deriving DecidableEq, Repr, Inhabited

namespace Declaration

/-- The kind of the first marker that the line contains; an empty token is in no line. -/
def kindOf? (markers : List Marker) (line : List Char) : Option String :=
  (markers.find? fun marker =>
    !marker.token.isEmpty && Text.occurs marker.token.toList line).map (·.kind)

/-- The line without any marker token, the tokens removed in the order of the markers. -/
def removeMarkers (markers : List Marker) (line : List Char) : List Char :=
  markers.foldl (fun text marker => Text.removeAll marker.token.toList text) line

/-- The name that a declaring line leaves: what stands before the first brace and the first
equals sign once the markers are removed, trimmed. -/
def nameIn (markers : List Marker) (line : List Char) : List Char :=
  Text.trimChars (((removeMarkers markers line).takeWhile (· != '{')).takeWhile (· != '='))

/-- What one line declares: a name and its kind. -/
def inLine? (markers : List Marker) (line : List Char) : Option (String × String) :=
  match kindOf? markers line with
  | none => none
  | some kind =>
    let name := nameIn markers line
    if name.isEmpty then none else some (String.ofList name, kind)

/-- The declarations of consecutive lines, the first of which has the given number. -/
def inLines (file : String) (markers : List Marker) (number : Nat) :
    List (List Char) → List Declaration
  | [] => []
  | line :: rest =>
    match inLine? markers line with
    | some (name, kind) => ⟨file, name, kind, number⟩ :: inLines file markers (number + 1) rest
    | none => inLines file markers (number + 1) rest

def scan (file : String) (markers : List Marker) (source : List Char) : List Declaration :=
  inLines file markers 1 (Source.lines source)

end Declaration

end ImportAudit
