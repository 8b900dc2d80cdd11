import ImportAudit.Fault
import ImportAudit.Number.Reading
import ImportAudit.Text.Search

/-!
# Flags

A flag is written `--name value` or `--name=value`, before or after other arguments, up to a lone
`--`. A truth flag needs no value. A flag that is given again replaces its value, except that a
list grows.
-/

namespace ImportAudit.CommandLine

inductive Kind
  | text
  | truth
  | integer
  | list
  deriving DecidableEq, Repr

/-- A flag: its name, the letter of a truth flag that has a short form, what its value is, what it
is for, and the default that its help shows. -/
structure Flag where
  name : String
  letter : Option Char
  kind : Kind
  purpose : String
  shownDefault : String
  deriving DecidableEq, Repr

inductive FlagValue
  | text (value : String)
  | truth (value : Bool)
  | integer (value : Int)
  | list (values : List String)
  deriving DecidableEq, Repr

/-- What a command line gives: the flags with their values, and the other arguments in order. -/
structure Given where
  flags : List (String × FlagValue)
  arguments : List String
  deriving DecidableEq, Repr

namespace Given

def none : Given := ⟨[], []⟩

def value? (given : Given) (name : String) : Option FlagValue :=
  given.flags.lookup name

def text (given : Given) (name : String) : String :=
  match given.value? name with
  | some (.text value) => value
  | _ => ""

def isSet (given : Given) (name : String) : Bool :=
  given.value? name = some (.truth true)

/-- The value of a flag after it is given once more. -/
def merged (earlier : Option FlagValue) (value : FlagValue) : FlagValue :=
  match earlier, value with
  | some (.list values), .list more => .list (values ++ more)
  | _, value => value

def assign (given : Given) (name : String) (value : FlagValue) : Given :=
  { given with
    flags := (name, merged (given.value? name) value) ::
      given.flags.filter fun (other, _) => other != name }

def addArguments (given : Given) (more : List String) : Given :=
  { given with arguments := given.arguments ++ more }

end Given

/-- The spellings of the two truth values. -/
def readTruth? (value : String) : Option Bool :=
  if ["1", "t", "T", "TRUE", "true", "True"].contains value then some true
  else if ["0", "f", "F", "FALSE", "false", "False"].contains value then some false
  else Option.none

namespace Flag

def title (flag : Flag) : String :=
  match flag.letter with
  | some letter => "-" ++ String.ofList [letter] ++ ", --" ++ flag.name
  | none => "--" ++ flag.name

def readKind (kind : Kind) (value : String) : Except ValueFault FlagValue :=
  match kind with
  | .text => .ok (.text value)
  | .truth =>
    match readTruth? value with
    | some truth => .ok (.truth truth)
    | none => .error (.truth value)
  | .integer =>
    match Number.readInt value.toList with
    | .ok number => .ok (.integer number)
    | .error .malformed => .error (.integer value false)
    | .error .outOfRange => .error (.integer value true)
  | .list =>
    match Text.Separated.values value with
    | .ok values => .ok (.list values)
    | .error cause => .error (.list cause)

def read (flag : Flag) (value : String) : Except Fault FlagValue :=
  match readKind flag.kind value with
  | .ok result => .ok result
  | .error cause => .error (.invalidFlagValue value flag.title cause)

end Flag

/-! ## Words of a command line -/

inductive Word
  | argument
  | terminator
  | long (name : String) (value : Option String)
  | letters (letters : List Char)
  | malformed
  deriving DecidableEq, Repr

def splitAtEquals (text : List Char) : String × Option String :=
  let name := String.ofList (text.takeWhile (· != '='))
  match text.dropWhile (· != '=') with
  | [] => (name, none)
  | _ :: value => (name, some (String.ofList value))

def Word.ofString (word : String) : Word :=
  match word.toList with
  | '-' :: '-' :: [] => .terminator
  | '-' :: '-' :: c :: rest =>
    if c = '-' || c = '=' then .malformed
    else
      let (name, value) := splitAtEquals (c :: rest)
      .long name value
  | '-' :: c :: rest => .letters (c :: rest)
  | _ => .argument

/-- The first byte of a character, as a character. -/
def leadingByte (c : Char) : Char :=
  if c.utf8Size = 1 then c
  else if c.utf8Size = 2 then Char.ofNat (0xC0 + c.toNat / 64)
  else if c.utf8Size = 3 then Char.ofNat (0xE0 + c.toNat / 4096)
  else Char.ofNat (0xF0 + c.toNat / 262144)

/-- Gives the truth flags of some letters; the rest after an equals sign is a value. -/
def giveLetters (flags : List Flag) (given : Given) : List Char → Except Fault Given
  | [] => .ok given
  | letter :: rest =>
    match flags.find? (·.letter == some letter) with
    | none =>
      if letter = 'h' then .error .helpRequested
      else .error (.unknownShorthand (leadingByte letter) (String.ofList (letter :: rest)))
    | some flag =>
      match rest with
      | '=' :: first :: others =>
        (flag.read (String.ofList (first :: others))).map (given.assign flag.name)
      | _ => giveLetters flags (given.assign flag.name (.truth true)) rest

def readWords (flags : List Flag) (given : Given) : List String → Except Fault Given
  | [] => .ok given
  | word :: rest =>
    match Word.ofString word with
    | .argument => readWords flags (given.addArguments [word]) rest
    | .terminator => .ok (given.addArguments rest)
    | .malformed => .error (.badFlagSyntax word)
    | .letters letters =>
      match giveLetters flags given letters with
      | .ok given => readWords flags given rest
      | .error fault => .error fault
    | .long name value =>
      match flags.find? (·.name == name), value with
      | none, _ => .error (if name = "help" then .helpRequested else .unknownFlag name)
      | some flag, some value =>
        match flag.read value with
        | .ok value => readWords flags (given.assign name value) rest
        | .error fault => .error fault
      | some flag, none =>
        if flag.kind = .truth then readWords flags (given.assign name (.truth true)) rest
        else
          match rest with
          | [] => .error (.missingFlagValue name)
          | value :: rest =>
            match flag.read value with
            | .ok value => readWords flags (given.assign name value) rest
            | .error fault => .error fault

end ImportAudit.CommandLine
