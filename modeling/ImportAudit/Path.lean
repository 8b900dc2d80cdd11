import ImportAudit.Text.Search

/-!
# Paths

Slash-separated paths as text: cleaning, joining, the last element, the extension, and one path
relative to another. Nothing here looks at a file system.
-/

namespace ImportAudit.Path

/-- A path in its shortest form: whether it starts at the top, and its elements, which are
neither empty nor `.`; `..` stands only at the front of a path that does not start at the top. -/
structure Clean where
  rooted : Bool
  elements : List String
  deriving DecidableEq, Repr

def isRooted (path : String) : Bool :=
  path.toList.head? == some '/'

/-- The texts between the slashes of a path. -/
def parts (path : String) : List String :=
  Text.piecesOf '/' path

/-- Adds one element to the elements of a cleaned path, given from last to first. -/
def pushElement (rooted : Bool) (reversed : List String) (element : String) : List String :=
  if element = "" || element = "." then reversed
  else if element = ".." then
    match reversed with
    | [] => if rooted then [] else [".."]
    | last :: others => if last = ".." then ".." :: reversed else others
  else element :: reversed

/-- The shortest path that means the same without looking at links. -/
def toClean (path : String) : Clean :=
  let rooted := isRooted path
  ⟨rooted, ((parts path).foldl (pushElement rooted) []).reverse⟩

/-- The text of a cleaned path; the empty path is `.`. -/
def Clean.render (path : Clean) : String :=
  let joined := String.intercalate "/" path.elements
  if path.rooted then "/" ++ joined else if joined = "" then "." else joined

def clean (path : String) : String :=
  (toClean path).render

/-- Joins the non-empty parts and cleans the result; nothing joins to nothing. -/
def join (paths : List String) : String :=
  match paths.filter (· != "") with
  | [] => ""
  | named => clean (String.intercalate "/" named)

def dropTrailingSlashes (text : List Char) : List Char :=
  (text.reverse.dropWhile (· == '/')).reverse

def afterLastSlash (text : List Char) : List Char :=
  (text.reverse.takeWhile (· != '/')).reverse

/-- The last element of a path: `.` for the empty path and `/` for slashes alone. -/
def base (path : String) : String :=
  if path = "" then "."
  else
    let last := afterLastSlash (dropTrailingSlashes path.toList)
    if last.isEmpty then "/" else String.ofList last

/-- Everything but the last element of a path, cleaned. -/
def dir (path : String) : String :=
  clean (String.ofList (path.toList.reverse.dropWhile (· != '/')).reverse)

/-- The extension of a path: the end of its last element from the last dot on, or nothing. -/
def extension (path : String) : String :=
  let last := afterLastSlash path.toList
  if last.contains '.' then
    String.ofList ('.' :: (last.reverse.takeWhile (· != '.')).reverse)
  else ""

def dropCommon : List String → List String → List String × List String
  | [], others => ([], others)
  | elements, [] => (elements, [])
  | first :: elements, other :: others =>
    if first = other then dropCommon elements others else (first :: elements, other :: others)

/-- The path that leads from `origin` to `target`, both taken without looking at links; `none`
where only one of them starts at the top, or where `origin` climbs to an unknown place. -/
def relative? (origin target : String) : Option String :=
  let start := toClean origin
  let goal := toClean target
  if start = goal then some "."
  else if start.rooted != goal.rooted then none
  else
    let goalElements := if !goal.rooted && goal.elements.isEmpty then ["."] else goal.elements
    match dropCommon start.elements goalElements with
    | ([], down) => some (String.intercalate "/" down)
    | (first :: up, down) =>
      if first = ".." && !down.isEmpty then none
      else some (String.intercalate "/" ((first :: up).map (fun _ => "..") ++ down))

end ImportAudit.Path
