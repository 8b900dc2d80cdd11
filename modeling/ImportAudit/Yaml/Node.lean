import ImportAudit.Yaml.Token

/-!
# The tree of a document

The tokens of the first document of a text form a tree of scalars, sequences and mappings. What is
left out, such as the value of a key or an entry after a dash, is an empty plain scalar.
-/

namespace ImportAudit.Yaml

/-- A node of a document. The keys of a mapping can be any nodes. -/
inductive Node
  | plain (text : String)
  | quoted (text : String)
  | sequence (items : List Node)
  | mapping (entries : List (Node × Node))
  deriving Inhabited

namespace Node

/-- What stands where nothing is written. -/
def empty : Node := .plain ""

/-- What was read off the front of some tokens, and the tokens left. -/
abbrev Parsed (α : Type) := Option (α × List Token)

/-- The tokens before which an entry of a block sequence is left out; one without indentation of
its own also ends with the mapping around it. -/
def endsEntry (nested : Bool) : List Token → Bool
  | .blockEntry :: _ | .blockEnd :: _ => true
  | .key :: _ | .value :: _ => !nested
  | _ => false

/-- The tokens before which a key or a value of a block mapping is left out. -/
def endsField : List Token → Bool
  | .key :: _ | .value :: _ | .blockEnd :: _ => true
  | _ => false

/-- The tokens before which a key or a value of a flow collection is left out. -/
def endsFlow (closing : Token) : List Token → Bool
  | .flowEntry :: _ => true
  | token :: _ => token = closing
  | [] => false

def afterComma : List Token → Option (List Token)
  | .flowEntry :: rest => some rest
  | _ => none

mutual

/-- Reads a node. In block style it may be a block collection, and where a mapping expects it also
a sequence without indentation of its own. -/
def parse (block bare : Bool) : Nat → List Token → Parsed Node
  | 0, _ => none
  | fuel + 1, tokens =>
    match tokens with
    | .plain text :: rest => some (.plain text, rest)
    | .quoted text :: rest => some (.quoted text, rest)
    | .flowSequence :: rest =>
      (parseFlowItems true fuel rest).map fun (items, rest) => (.sequence items, rest)
    | .flowMapping :: rest =>
      (parseFlowFields true fuel rest).map fun (entries, rest) => (.mapping entries, rest)
    | .blockSequence :: rest =>
      if block then (parseItems true fuel rest).map fun (items, rest) => (.sequence items, rest)
      else none
    | .blockMapping :: rest =>
      if block then (parseFields fuel rest).map fun (entries, rest) => (.mapping entries, rest)
      else none
    | .blockEntry :: _ =>
      if bare then (parseItems false fuel tokens).map fun (items, rest) => (.sequence items, rest)
      else none
    | _ => none

/-- Reads the entries of a block sequence. One with indentation of its own is closed by a token;
the other is over at the first token that is no dash. -/
def parseItems (nested : Bool) : Nat → List Token → Parsed (List Node)
  | 0, _ => none
  | fuel + 1, tokens =>
    match tokens with
    | .blockEntry :: rest =>
      match if endsEntry nested rest then some (empty, rest) else parse true false fuel rest with
      | none => none
      | some (item, rest) =>
        (parseItems nested fuel rest).map fun (items, rest) => (item :: items, rest)
    | .blockEnd :: rest => some ([], if nested then rest else tokens)
    | _ => if nested then none else some ([], tokens)

def parseFields : Nat → List Token → Parsed (List (Node × Node))
  | 0, _ => none
  | fuel + 1, tokens =>
    match tokens with
    | .key :: rest =>
      match if endsField rest then some (empty, rest) else parse true true fuel rest with
      | none => none
      | some (key, rest) =>
        match parseValue fuel rest with
        | none => none
        | some (value, rest) =>
          (parseFields fuel rest).map fun (entries, rest) => ((key, value) :: entries, rest)
    | .blockEnd :: rest => some ([], rest)
    | _ => none

def parseValue : Nat → List Token → Parsed Node
  | 0, _ => none
  | fuel + 1, tokens =>
    match tokens with
    | .value :: rest =>
      if endsField rest then some (empty, rest) else parse true true fuel rest
    | _ => some (empty, tokens)

/-- Reads the entries of a flow sequence up to its end; a key makes an entry a mapping of one
field. -/
def parseFlowItems (first : Bool) : Nat → List Token → Parsed (List Node)
  | 0, _ => none
  | fuel + 1, tokens =>
    match tokens with
    | .flowSequenceEnd :: rest => some ([], rest)
    | _ =>
      match if first then some tokens else afterComma tokens with
      | none => none
      | some (.flowSequenceEnd :: rest) => some ([], rest)
      | some (.key :: rest) =>
        match parseFlowField .flowSequenceEnd fuel rest with
        | none => none
        | some (entry, rest) =>
          (parseFlowItems false fuel rest).map fun (items, rest) =>
            (.mapping [entry] :: items, rest)
      | some tokens =>
        match parse false false fuel tokens with
        | none => none
        | some (item, rest) =>
          (parseFlowItems false fuel rest).map fun (items, rest) => (item :: items, rest)

/-- Reads the fields of a flow mapping up to its end; a field without a key mark has no value. -/
def parseFlowFields (first : Bool) : Nat → List Token → Parsed (List (Node × Node))
  | 0, _ => none
  | fuel + 1, tokens =>
    match tokens with
    | .flowMappingEnd :: rest => some ([], rest)
    | _ =>
      match if first then some tokens else afterComma tokens with
      | none => none
      | some (.flowMappingEnd :: rest) => some ([], rest)
      | some (.key :: rest) =>
        match parseFlowField .flowMappingEnd fuel rest with
        | none => none
        | some (entry, rest) =>
          (parseFlowFields false fuel rest).map fun (entries, rest) => (entry :: entries, rest)
      | some tokens =>
        match parse false false fuel tokens with
        | none => none
        | some (key, rest) =>
          (parseFlowFields false fuel rest).map fun (entries, rest) =>
            ((key, empty) :: entries, rest)

def parseFlowField (closing : Token) : Nat → List Token → Parsed (Node × Node)
  | 0, _ => none
  | fuel + 1, tokens =>
    let noKey := endsFlow closing tokens || tokens.head? = some .value
    match if noKey then some (empty, tokens) else parse false false fuel tokens with
    | none => none
    | some (key, .value :: rest) =>
      match if endsFlow closing rest then some (empty, rest) else parse false false fuel rest with
      | none => none
      | some (value, rest) => some ((key, value), rest)
    | some (key, rest) => some ((key, empty), rest)

end

/-- Whether a document is empty where these tokens follow its start. -/
def endsDocument : List Token → Bool
  | [] | .documentStart :: _ | .documentEnd :: _ => true
  | _ => false

/-- How many tokens are looked at from the end of a document on, whatever they are. -/
def lookahead : Nat := 3

/-- Reads the content of a document. What follows it does not matter, unless it is invalid and
near. -/
def parseContent (tokens : List Token) : Option Node :=
  match if endsDocument tokens then some (empty, tokens)
      else parse true false (3 * tokens.length + 3) tokens with
  | none => none
  | some (node, rest) => if (rest.take lookahead).contains .invalid then none else some node

/-- The root of the first document; a text without tokens has an empty one. -/
def ofTokens? (tokens : List Token) : Option Node :=
  match tokens with
  | [] => some empty
  | .documentStart :: rest => parseContent rest
  | .documentEnd :: _ => none
  | _ => parseContent tokens

end Node

end ImportAudit.Yaml
