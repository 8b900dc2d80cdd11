/-!
# Values separated by commas

One line of values. A value in double quotes may hold commas, line breaks, and quotes written
twice. Faults are placed by line and by column, counted in bytes.
-/

namespace ImportAudit.Text.Separated

structure Position where
  line : Nat
  column : Nat
  deriving DecidableEq, Repr

inductive Fault
  | empty
  | bareQuote (start : Nat) (place : Position)
  | strayQuote (start : Nat) (place : Position)
  deriving DecidableEq, Repr

/-- Where a fault is, and on which line the values start if that is another one. -/
def placeText (start : Nat) (place : Position) : String :=
  let here :=
    "parse error on line " ++ toString place.line ++ ", column " ++ toString place.column
  if start = place.line then here else "record on line " ++ toString start ++ "; " ++ here

def Fault.message : Fault → String
  | .empty => "EOF"
  | .bareQuote start place => placeText start place ++ ": bare \" in non-quoted field"
  | .strayQuote start place =>
    placeText start place ++ ": extraneous or missing \" in quoted-field"

/-- Where reading stands: before a value, in a plain value, in a quoted one, or after a quote in
a quoted one. -/
inductive Mode
  | before
  | plain
  | quoted
  | afterQuote
  deriving DecidableEq, Repr

/-- The position after a character. A line break at the very end starts no new line. -/
def Position.after (place : Position) (c : Char) (rest : List Char) : Position :=
  if c = '\n' && !rest.isEmpty then ⟨place.line + 1, 1⟩
  else ⟨place.line, place.column + c.utf8Size⟩

/-- The values read so far, once the last one is complete. -/
def complete (values : List String) (current : List Char) : List String :=
  (String.ofList current.reverse :: values).reverse

/-- Reads values; those read so far and the current one are kept from last to first. -/
def readValues (start : Nat) (values : List String) (current : List Char) (mode : Mode)
    (place : Position) : List Char → Except Fault (List String)
  | [] => if mode = .quoted then .error (.strayQuote start place) else .ok (complete values current)
  | c :: rest =>
    let next := place.after c rest
    match mode with
    | .quoted =>
      if c = '"' then readValues start values current .afterQuote next rest
      else readValues start values (c :: current) .quoted next rest
    | .afterQuote =>
      if c = '"' then readValues start values (c :: current) .quoted next rest
      else if c = ',' then
        readValues start (String.ofList current.reverse :: values) [] .before next rest
      else if c = '\n' then .ok (complete values current)
      else .error (.strayQuote start ⟨place.line, place.column - 1⟩)
    | .before | .plain =>
      if c = '"' then
        if mode = .before then readValues start values [] .quoted next rest
        else .error (.bareQuote start place)
      else if c = ',' then
        readValues start (String.ofList current.reverse :: values) [] .before next rest
      else if c = '\n' then .ok (complete values current)
      else readValues start values (c :: current) .plain next rest

/-- A text whose lines end with a line feed alone; a carriage return at its end is dropped. -/
def plainLines : List Char → List Char
  | [] => []
  | ['\r'] => []
  | '\r' :: '\n' :: rest => '\n' :: plainLines rest
  | c :: rest => c :: plainLines rest

def skipEmptyLines (line : Nat) : List Char → Nat × List Char
  | '\n' :: rest => skipEmptyLines (line + 1) rest
  | text => (line, text)

/-- The values of the first line that is not empty. The empty text has no values. -/
def values (text : String) : Except Fault (List String) :=
  if text = "" then .ok []
  else
    match skipEmptyLines 1 (plainLines text.toList) with
    | (_, []) => .error .empty
    | (line, chars) => readValues line [] [] .before ⟨line, 1⟩ chars

end ImportAudit.Text.Separated
