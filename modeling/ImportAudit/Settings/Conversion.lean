import ImportAudit.CommandLine.Flag
import ImportAudit.Declaration
import ImportAudit.Number.Shortest
import ImportAudit.Yaml.Value

/-!
# Converting settings

A setting takes values of other types where a sensible reading exists: texts from numbers and
truth values, numbers from texts, lists from single values. What has no reading is refused.
-/

namespace ImportAudit.Settings

/-- The text of a floating point value: positional, with the fewest digits that read back. -/
def realText : Yaml.Real → String
  | .finite value => Number.plainText value
  | .infinite negative => if negative then "-Inf" else "+Inf"
  | .undefined => "NaN"

/-- A value as a text; truth values are one and zero, and null is empty. -/
def textOf? : Yaml.Value → Option String
  | .null => some ""
  | .text value => some value
  | .truth value => some (if value then "1" else "0")
  | .integer value => some (toString value)
  | .real value => some (realText value)
  | _ => none

def leastInteger : Int := -Number.halfLimit

/-- An integer cut to 64 bits, the highest of which is the sign. -/
def wrapInteger (value : Int) : Int :=
  if value < Number.halfLimit then value else value - Number.wordLimit

/-- The integer part of a floating point value; the least integer where there is none. -/
def realInteger : Yaml.Real → Int
  | .finite value =>
    let whole := value.truncate
    if leastInteger ≤ whole && whole < Number.halfLimit then whole else leastInteger
  | _ => leastInteger

/-- A value as an integer; an empty text is zero. -/
def integerOf? : Yaml.Value → Option Int
  | .null => some 0
  | .integer value => some (wrapInteger value)
  | .real value => some (realInteger value)
  | .truth value => some (if value then 1 else 0)
  | .text "" => some 0
  | .text value => (Number.readInt value.toList).toOption
  | _ => none

def isZero : Yaml.Real → Bool
  | .finite value => value.mantissa = 0
  | _ => false

/-- A value as a truth value; numbers are true unless they are zero, and an empty text is
false. -/
def truthOf? : Yaml.Value → Option Bool
  | .null => some false
  | .truth value => some value
  | .integer value => some (value ≠ 0)
  | .real value => some (!isZero value)
  | .text "" => some false
  | .text value => CommandLine.readTruth? value
  | _ => none

def eachOf? {α : Type} (convert : Yaml.Value → Option α) : List Yaml.Value → Option (List α)
  | [] => some []
  | value :: rest =>
    match convert value, eachOf? convert rest with
    | some result, some results => some (result :: results)
    | _, _ => none

/-- A value as a list of texts: a text is split at commas, an empty one is the empty list, and any
other single value is a list of one. -/
def textsOf? : Yaml.Value → Option (List String)
  | .null => some []
  | .text "" => some []
  | .text value => some (Text.piecesOf ',' value)
  | .list items => eachOf? textOf? items
  | .mapping [] => some []
  | value => (textOf? value).map ([·])

def markerField? (fields : List (String × Yaml.Value)) (name : String) : Option String :=
  match fields.lookup name with
  | some value => textOf? value
  | none => some ""

def markerOf? : Yaml.Value → Option Marker
  | .null => some ⟨"", ""⟩
  | .mapping fields =>
    match markerField? fields "token", markerField? fields "kind" with
    | some token, some kind => some ⟨token, kind⟩
    | _, _ => none
  | _ => none

/-- A value as a list of markers; a single mapping is a list of one. -/
def markersOf? : Yaml.Value → Option (List Marker)
  | .null => some []
  | .text "" => some []
  | .list items => eachOf? markerOf? items
  | .mapping [] => some []
  | .mapping fields => (markerOf? (.mapping fields)).map ([·])
  | _ => none

end ImportAudit.Settings
