import ImportAudit.Text.Search

/-!
# Glob patterns

Patterns over slash-separated paths. `*` and `?` stay inside one path element, `**` as a whole
element crosses any number of them, braces list alternatives, brackets list characters, and a
backslash takes the next character literally.
-/

namespace ImportAudit.Glob

/-! ## Well-formed patterns -/

/-- Where a reader of a pattern stands: in plain text, or in a character class just after the
bracket, just after its negation, or past its first character. -/
inductive Position
  | plain
  | opened
  | negated
  | inside
  deriving DecidableEq, Repr

/-- Whether the rest of a pattern is well formed: every class is closed and not empty, every
brace has its partner, and no backslash stands at the end. -/
def wellFormedFrom (depth : Nat) (position : Position) : List Char → Bool
  | [] => position = .plain && depth = 0
  | '\\' :: _ :: rest => wellFormedFrom depth (if position = .plain then .plain else .inside) rest
  | ['\\'] => false
  | c :: rest =>
    match position with
    | .plain =>
      if c = '[' then wellFormedFrom depth .opened rest
      else if c = '{' then wellFormedFrom (depth + 1) .plain rest
      else if c = '}' then depth ≠ 0 && wellFormedFrom (depth - 1) .plain rest
      else wellFormedFrom depth .plain rest
    | .opened =>
      if c = '^' || c = '!' then wellFormedFrom depth .negated rest
      else c ≠ ']' && wellFormedFrom depth .inside rest
    | .negated => c ≠ ']' && wellFormedFrom depth .inside rest
    | .inside => wellFormedFrom depth (if c = ']' then .plain else .inside) rest

def isWellFormed (pattern : String) : Bool :=
  wellFormedFrom 0 .plain pattern.toList

/-! ## Alternatives -/

def splitBrace (depth : Nat) : List Char → Option (List Char × List Char)
  | [] => none
  | '\\' :: c :: rest =>
    (splitBrace depth rest).map fun (inner, after) => ('\\' :: c :: inner, after)
  | ['\\'] => none
  | c :: rest =>
    if c = '}' && depth = 0 then some ([], rest)
    else
      let depth :=
        if c = '{' then depth + 1 else if c = '}' then depth - 1 else depth
      (splitBrace depth rest).map fun (inner, after) => (c :: inner, after)

def extendFirst (front : List Char) : List (List Char) → List (List Char)
  | [] => [front]
  | first :: others => (front ++ first) :: others

/-- The alternatives inside a pair of braces: the texts between the commas that stand in no inner
pair. -/
def alternatives (depth : Nat) : List Char → List (List Char)
  | [] => [[]]
  | '\\' :: c :: rest => extendFirst ['\\', c] (alternatives depth rest)
  | c :: rest =>
    if c = ',' && depth = 0 then [] :: alternatives depth rest
    else
      let depth :=
        if c = '{' then depth + 1 else if c = '}' then depth - 1 else depth
      extendFirst [c] (alternatives depth rest)

/-! ## Character classes -/

/-- What a character class says about a character. The rest of the pattern after the class goes
with a hit; the text at which the reading stopped goes with a miss. -/
inductive ClassResult
  | hit (after : List Char)
  | miss (remainder : List Char)
  | broken

/-- The text after the next bracket that closes a class. -/
def afterClass? : List Char → Option (List Char)
  | [] => none
  | '\\' :: _ :: rest => afterClass? rest
  | c :: rest => if c = ']' then some rest else afterClass? rest

/-- Reads the members of a class until one of them covers the character or the class ends: the
outcome, and the text that is left. `last` is the member that a range would start from. -/
def searchClass (c : Char) (last : Option Char) (text : List Char) : Bool × List Char :=
  match text with
  | [] => (false, [])
  | ']' :: rest => (false, ']' :: rest)
  | '-' :: '\\' :: high :: rest =>
    match last with
    | some low => if low ≤ c && c ≤ high then (true, rest) else searchClass c none rest
    | none =>
      if c = '-' then (true, '\\' :: high :: rest)
      else searchClass c (some '-') ('\\' :: high :: rest)
  | '-' :: high :: rest =>
    match last with
    | some low =>
      if high = ']' then (c = '-', high :: rest)
      else if low ≤ c && c ≤ high then (true, rest)
      else searchClass c none rest
    | none =>
      if c = '-' then (true, high :: rest) else searchClass c (some '-') (high :: rest)
  | '\\' :: escaped :: rest =>
    if escaped = c then (true, rest) else searchClass c (some escaped) rest
  | member :: rest => if member = c then (true, rest) else searchClass c (some member) rest
termination_by text.length

/-- Reads a class, given the text after its bracket, for one character. -/
def matchClass (c : Char) (text : List Char) : ClassResult :=
  let (negated, members) :=
    match text with
    | '!' :: rest => (true, rest)
    | '^' :: rest => (true, rest)
    | _ => (false, text)
  match members with
  | [] => .broken
  | ']' :: _ => .broken
  | _ =>
    let (found, left) := searchClass c none members
    if found = negated then if left.isEmpty then .broken else .miss left
    else
      match afterClass? left with
      | some after => .hit after
      | none => .broken

/-! ## Matching -/

/-- Whether what is left of a pattern matches the empty text; `none` where it is malformed. The
pattern shrinks with every pair of braces opened, so its length is enough fuel. -/
def matchesEmpty (fuel : Nat) (pattern : List Char) : Option Bool :=
  match fuel with
  | 0 => some false
  | fuel + 1 =>
    if ["", "*", "**", "/**", "**/", "/**/"].contains (String.ofList pattern) then some true
    else
      match pattern with
      | '{' :: body =>
        match splitBrace 0 body with
        | none => none
        | some (inner, after) =>
          (alternatives 0 inner).foldl (fun found choice =>
            match found with
            | some false => matchesEmpty fuel (choice ++ after)
            | _ => found) (some false)
      | _ => if wellFormedFrom 0 .plain pattern then some false else none

/-- A position to come back to: an index into the pattern and what was left of the name. -/
abbrev Retreat := Nat × List Char

/-- Matches a name against a pattern of which `todo` is left. `star` is the last `*`, which may
take one more character that is no slash; `deep` is the last `**`, which may take one more path
element; `fresh` says that a path element starts here. A star passed on the way to a `**` is given
up. The outcome is `none` where the pattern is malformed. -/
def matchFrom (fuel : Nat) (pattern : List Char) (star deep : Option Retreat) (fresh : Bool)
    (todo name : List Char) : Option Bool :=
  match fuel with
  | 0 => some false
  | fuel + 1 =>
    match name with
    | [] => matchesEmpty (todo.length + 1) todo
    | c :: rest =>
      let passed := pattern.length - todo.length
      let retreatDeep := fun (remainder : List Char) =>
        let failure := if wellFormedFrom 0 .plain remainder then some false else none
        match deep with
        | some (index, saved) =>
          match saved.dropWhile (· != '/') with
          | _ :: after =>
            matchFrom fuel pattern none (some (index, after)) true (pattern.drop index) after
          | [] => failure
        | none => failure
      let retreat := fun (remainder : List Char) =>
        match star with
        | some (index, d :: after) =>
          if d ≠ '/' then
            matchFrom fuel pattern (some (index, after)) deep false (pattern.drop index) after
          else retreatDeep remainder
        | _ => retreatDeep remainder
      match todo with
      | [] => retreat []
      | '*' :: '*' :: tail =>
        if fresh && tail.isEmpty then some true
        else if fresh && tail.head? = some '/' then
          matchFrom fuel pattern none (some (passed + 3, name)) true (tail.drop 1) name
        else matchFrom fuel pattern (some (passed + 2, name)) deep false tail name
      | '*' :: tail => matchFrom fuel pattern (some (passed + 1, name)) deep false tail name
      | '?' :: tail =>
        if c = '/' then retreat todo else matchFrom fuel pattern star deep false tail rest
      | '[' :: text =>
        match matchClass c text with
        | .hit after => matchFrom fuel pattern star deep false after rest
        | .miss remainder => retreat remainder
        | .broken => none
      | '{' :: body =>
        match splitBrace 0 body with
        | none => none
        | some (inner, after) =>
          (alternatives 0 inner).foldl (fun found choice =>
            match found with
            | some false =>
              matchFrom fuel (pattern.take passed ++ choice ++ after) star deep true
                (choice ++ after) name
            | _ => found) (some false)
      | ['\\'] => none
      | '\\' :: literal :: tail =>
        if literal = c then matchFrom fuel pattern star deep (literal = '/') tail rest
        else retreat todo
      | literal :: tail =>
        if literal = c then matchFrom fuel pattern star deep (literal = '/') tail rest
        else retreat todo

/-- More steps than a match can take: every retreat moves one of the two saved positions forward,
and every pair of braces shortens the pattern. -/
def stepLimit (pattern name : List Char) : Nat :=
  Nat.pow (pattern.length + 2) 3 * Nat.pow (name.length + 2) 2 *
    (pattern.length + name.length + 2)

/-- Whether a path matches a pattern; a malformed pattern matches nothing. -/
def matchesPath (pattern path : String) : Bool :=
  matchFrom (stepLimit pattern.toList path.toList) pattern.toList none none true pattern.toList
    path.toList = some true

end ImportAudit.Glob
