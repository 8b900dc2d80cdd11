import ImportAudit.Text.Lowercase
import ImportAudit.Yaml.Node

/-!
# The values of a document

A plain scalar reads as what it looks like, a quoted one is text, and a mapping has keys that are
scalars, each written once. A document of settings is a mapping, or empty.
-/

namespace ImportAudit.Yaml

inductive Value
  | null
  | truth (value : Bool)
  | integer (value : Int)
  | real (value : Real)
  | timestamp
  | text (value : String)
  | list (items : List Value)
  | mapping (fields : List (String × Value))
  deriving Inhabited

namespace Value

def ofPlain (written : String) : Value :=
  match meaning written with
  | .null => .null
  | .truth value => .truth value
  | .integer value => .integer value
  | .real value => .real value
  | .timestamp => .timestamp
  | .text => .text written

/-- The text of a scalar; collections have none. -/
def scalarText? : Node → Option String
  | .plain written => some written
  | .quoted written => some written
  | _ => none

/-- Whether a key is an empty or a null one, which names nothing. -/
def isNullKey : Node → Bool
  | .plain written => meaning written = .null
  | _ => false

/-- Whether the keys of a mapping are scalars that differ by their texts. -/
def keysAreDistinct (entries : List (Node × Node)) : Bool :=
  let keys := entries.map fun entry => scalarText? entry.1
  keys.all Option.isSome && keys.Nodup

mutual

/-- What a node stands for, if its keys are as they should be. -/
def ofNode? : Node → Option Value
  | .plain written => some (ofPlain written)
  | .quoted written => some (.text written)
  | .sequence items => (ofItems? items).map .list
  | .mapping entries => if keysAreDistinct entries then (ofEntries? entries).map .mapping else none

def ofItems? : List Node → Option (List Value)
  | [] => some []
  | item :: rest =>
    match ofNode? item, ofItems? rest with
    | some value, some values => some (value :: values)
    | _, _ => none

def ofEntries? : List (Node × Node) → Option (List (String × Value))
  | [] => some []
  | (key, inner) :: rest =>
    match ofNode? inner, ofEntries? rest with
    | some value, some fields =>
      some (if isNullKey key then fields else ((scalarText? key).getD "", value) :: fields)
    | _, _ => none

end

mutual

/-- The value with the keys of all its mappings in lower case. -/
def lowerKeys : Value → Value
  | .list items => .list (lowerItems items)
  | .mapping fields => .mapping (lowerFields fields)
  | value => value

def lowerItems : List Value → List Value
  | [] => []
  | item :: rest => lowerKeys item :: lowerItems rest

def lowerFields : List (String × Value) → List (String × Value)
  | [] => []
  | (name, value) :: rest => (Text.lower name, lowerKeys value) :: lowerFields rest

end

end Value

def isDocumentChar (c : Char) : Bool :=
  let n := c.toNat
  n = 0x09 || n = 0x0A || n = 0x0D || (0x20 ≤ n && n ≤ 0x7E) || n = 0x85 ||
    (0xA0 ≤ n && n ≤ 0xFFFD) || 0x10000 ≤ n

def dropByteOrderMark (text : List Char) : List Char :=
  match text with
  | '\uFEFF' :: rest => rest
  | _ => text

def root? (content : ByteArray) : Option Value :=
  match String.fromUTF8? content with
  | none => none
  | some text =>
    let chars := dropByteOrderMark text.toList
    if !chars.all isDocumentChar then none
    else (Node.ofTokens? (tokensOf (uniformBreaks chars))).bind Value.ofNode?

/-- The fields of a document of settings, with keys in lower case. -/
def settingsOf? (content : ByteArray) : Option (List (String × Value)) :=
  match root? content with
  | some .null => some []
  | some (.mapping fields) => some (Value.lowerFields fields)
  | _ => none

end ImportAudit.Yaml
