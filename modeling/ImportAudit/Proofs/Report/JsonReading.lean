import ImportAudit.Proofs.Json.Strings
import ImportAudit.Report

/-!
# Reading the indented report back

The indented report is read back as an object of exactly two fields, each a list of strings,
whatever characters the names have and however many there are.
-/

namespace ImportAudit

namespace Json

/-! ## Values -/

theorem skipBlanks_solid {c : Char} (solid : isBlank c = false) (rest : List Char) :
    skipBlanks (c :: rest) = c :: rest :=
  List.dropWhile_cons_of_neg (by simp [solid])

theorem skipBlanks_append
    {blanks : List Char} (areBlank : blanks.all isBlank = true) (rest : List Char) :
    skipBlanks (blanks ++ rest) = skipBlanks rest :=
  List.dropWhile_append_of_pos (List.all_eq_true.mp areBlank)

theorem toList_quote (escaping : Escaping) (text : String) :
    (quote escaping text).toList =
      '"' :: (text.toList.flatMap (escapeChar escaping) ++ ['"']) :=
  String.toList_ofList

theorem readValue_string
    {blanks : List Char} (areBlank : blanks.all isBlank = true) (escaping : Escaping)
    (text : String) (fuel : Nat) (rest : List Char) :
    readValue (fuel + 1) (blanks ++ (quote escaping text).toList ++ rest) =
      some (.string text, rest) := by
  have start : skipBlanks (blanks ++ (quote escaping text).toList ++ rest) =
      '"' :: (text.toList.flatMap (escapeChar escaping) ++ '"' :: rest) := by
    rw [List.append_assoc, skipBlanks_append areBlank, toList_quote, List.cons_append,
      List.append_assoc, skipBlanks_solid (by decide)]
    rfl
  rw [readValue, start]
  simp [readString_escaped]

section Parts

variable {fuel : Nat} {text after next rest : List Char}

theorem readItems_last
    {item : Json} (read : readValue fuel text = some (item, after))
    (closed : skipBlanks after = ']' :: rest) :
    readItems (fuel + 1) text = some ([item], rest) := by
  rw [readItems, read]
  simp only [closed]

theorem readItems_next
    {item : Json} {items : List Json} (read : readValue fuel text = some (item, after))
    (separated : skipBlanks after = ',' :: next)
    (others : readItems fuel next = some (items, rest)) :
    readItems (fuel + 1) text = some (item :: items, rest) := by
  rw [readItems, read]
  simp only [separated, others, Option.map_some]

theorem readValue_items
    {first : Char} {items : List Json} (opened : skipBlanks text = '[' :: next)
    (start : skipBlanks next = first :: after) (notClosed : first ≠ ']')
    (read : readItems fuel (first :: after) = some (items, rest)) :
    readValue (fuel + 1) text = some (.array items, rest) := by
  rw [readValue, opened]
  simp only [start]
  split
  · rename_i same
    exact absurd (List.cons.inj same).1 notClosed
  · rw [read, Option.map_some]

theorem readValue_fields
    {first : Char} {fields : List (String × Json)} (opened : skipBlanks text = '{' :: next)
    (start : skipBlanks next = first :: after) (notClosed : first ≠ '}')
    (read : readFields fuel (first :: after) = some (fields, rest)) :
    readValue (fuel + 1) text = some (.object fields, rest) := by
  rw [readValue, opened]
  simp only [start]
  split
  · rename_i same
    exact absurd (List.cons.inj same).1 notClosed
  · rw [read, Option.map_some]

theorem readField_pair
    (blanks : List Char) (areBlank : blanks.all isBlank = true) (escaping : Escaping)
    (name : String) {value : Json} (read : readValue fuel text = some (value, rest)) :
    readField (fuel + 1) (blanks ++ (quote escaping name).toList ++ ':' :: text) =
      some ((name, value), rest) := by
  have start : skipBlanks (blanks ++ (quote escaping name).toList ++ ':' :: text) =
      '"' :: (name.toList.flatMap (escapeChar escaping) ++ '"' :: ':' :: text) := by
    rw [List.append_assoc, skipBlanks_append areBlank, toList_quote, List.cons_append,
      List.append_assoc, skipBlanks_solid (by decide)]
    rfl
  have colon : skipBlanks (':' :: text) = ':' :: text := skipBlanks_solid (by decide) text
  rw [readField, start]
  simp only [readString_escaped, colon, read, Option.map_some, String.ofList_toList]

theorem readFields_last
    {field : String × Json} (read : readField fuel text = some (field, after))
    (closed : skipBlanks after = '}' :: rest) :
    readFields (fuel + 1) text = some ([field], rest) := by
  rw [readFields, read]
  simp only [closed]

theorem readFields_next
    {field : String × Json} {fields : List (String × Json)}
    (read : readField fuel text = some (field, after))
    (separated : skipBlanks after = ',' :: next)
    (others : readFields fuel next = some (fields, rest)) :
    readFields (fuel + 1) text = some (field :: fields, rest) := by
  rw [readFields, read]
  simp only [separated, others, Option.map_some]

end Parts

/-! ## Lists of strings -/

/-- The strings of a list, each but the last followed by a comma and the start of the next line. -/
def itemLines (escaping : Escaping) (names : List String) : List Char :=
  (String.intercalate ",\n    " (names.map (quote escaping))).toList

@[simp]
theorem itemLines_singleton (escaping : Escaping) (name : String) :
    itemLines escaping [name] = (quote escaping name).toList := by
  rw [itemLines, List.map_singleton, String.intercalate_singleton]

theorem itemLines_cons_cons (escaping : Escaping) (name next : String) (others : List String) :
    itemLines escaping (name :: next :: others) =
      (quote escaping name).toList ++ ',' :: ("\n    ".toList ++
        itemLines escaping (next :: others)) := by
  simp only [itemLines, List.map_cons, String.intercalate_cons_cons, String.toList_append,
    List.append_assoc]
  rfl

theorem length_le_itemLines (escaping : Escaping) (names : List String) :
    names.length ≤ (itemLines escaping names).length := by
  induction names with
  | nil => exact Nat.zero_le _
  | cons name others inductionHypothesis =>
    have quoted : 1 ≤ (quote escaping name).toList.length := by
      rw [toList_quote, List.length_cons]
      omega
    cases others with
    | nil => rwa [itemLines_singleton]
    | cons next more =>
      rw [itemLines_cons_cons]
      simp only [List.length_append, List.length_cons] at inductionHypothesis ⊢
      omega

/-- The strings of a list are read up to the bracket that closes it. -/
theorem readItems_strings
    (escaping : Escaping) (name : String) (others : List String) (fuel : Nat)
    (enough : others.length + 2 ≤ fuel) (blanks closing : List Char)
    (areBlank : blanks.all isBlank = true) (closingBlank : closing.all isBlank = true)
    (rest : List Char) :
    readItems fuel
        (blanks ++ itemLines escaping (name :: others) ++ (closing ++ ']' :: rest)) =
      some ((name :: others).map .string, rest) := by
  induction others generalizing name fuel blanks with
  | nil =>
    obtain ⟨spare, rfl⟩ := Nat.exists_eq_add_of_le' enough
    rw [itemLines_singleton]
    refine readItems_last (readValue_string areBlank escaping name spare _) ?_
    rw [skipBlanks_append closingBlank, skipBlanks_solid (by decide)]
  | cons next more inductionHypothesis =>
    obtain ⟨spare, rfl⟩ := Nat.exists_eq_add_of_le' enough
    have first := readValue_string areBlank escaping name (spare + more.length + 1)
      (',' :: ("\n    ".toList ++ itemLines escaping (next :: more) ++ (closing ++ ']' :: rest)))
    have later := inductionHypothesis next (spare + more.length + 2) (by omega)
      "\n    ".toList (by decide)
    have items := readItems_next first (skipBlanks_solid (by decide) _) later
    rw [itemLines_cons_cons]
    simpa [Nat.add_assoc, Nat.add_comm, Nat.add_left_comm] using items

end Json

namespace Report

open ImportAudit.Json
open ImportAudit.Usage (Findings)

theorem intercalate_indented (separator indent first : String) (others : List String) :
    String.intercalate separator ((first :: others).map (indent ++ ·)) =
      indent ++ String.intercalate (separator ++ indent) (first :: others) := by
  induction others generalizing first with
  | nil => simp only [List.map_cons, List.map_nil, String.intercalate_singleton]
  | cons next more inductionHypothesis =>
    have later := inductionHypothesis next
    rw [List.map_cons] at later
    rw [List.map_cons, List.map_cons, String.intercalate_cons_cons, later,
      String.intercalate_cons_cons]
    simp only [String.append_assoc]

theorem toList_jsonList_cons (name : String) (others : List String) :
    (jsonList (name :: others)).toList =
      '[' :: ("\n    ".toList ++ itemLines .safe (name :: others) ++ "\n  ]".toList) := by
  have indented := intercalate_indented ",\n" "    " (quote .safe name)
    (others.map (quote .safe))
  rw [← List.map_cons, List.map_map] at indented
  unfold jsonList
  dsimp only [Function.comp_def] at indented ⊢
  rw [indented]
  simp [itemLines]

theorem length_le_jsonList (names : List String) :
    names.length ≤ (jsonList names).toList.length := by
  cases names with
  | nil => exact Nat.zero_le _
  | cons name others =>
    have lines := length_le_itemLines .safe (name :: others)
    rw [toList_jsonList_cons]
    simp only [List.length_cons, List.length_append] at lines ⊢
    omega

/-- A list of strings is read as it was written, and a list of none as an empty list. -/
theorem readValue_jsonList
    (names : List String) (fuel : Nat) (enough : names.length + 2 ≤ fuel) (rest : List Char) :
    readValue fuel (' ' :: ((jsonList names).toList ++ rest)) = some (strings names, rest) := by
  obtain ⟨spare, rfl⟩ : ∃ spare, fuel = spare + 1 := Nat.exists_eq_add_of_le' (by omega)
  cases names with
  | nil =>
    have start : skipBlanks (' ' :: ("[]".toList ++ rest)) = '[' :: ']' :: rest := by
      simp [skipBlanks, isBlank]
    have inside : skipBlanks (']' :: rest) = ']' :: rest := skipBlanks_solid (by decide) rest
    rw [jsonList, readValue, start]
    simp only [inside]
    rfl
  | cons name others =>
    have items := readItems_strings .safe name others spare (by simpa using enough)
      [] "\n  ".toList (by decide) (by decide) rest
    have opened : ∃ tail, itemLines .safe (name :: others) = '"' :: tail := by
      cases others with
      | nil => exact ⟨_, by rw [itemLines_singleton, toList_quote]⟩
      | cons next more =>
        exact ⟨_, by rw [itemLines_cons_cons, toList_quote, List.cons_append]⟩
    obtain ⟨tail, opened⟩ := opened
    have start : skipBlanks (' ' :: ((jsonList (name :: others)).toList ++ rest)) =
        '[' :: ("\n    ".toList ++ itemLines .safe (name :: others) ++
          ("\n  ".toList ++ ']' :: rest)) := by
      rw [toList_jsonList_cons]
      simp [skipBlanks, isBlank]
    rw [opened] at start items
    refine readValue_items start ?_ (by decide) items
    rw [List.append_assoc, skipBlanks_append (by decide), List.cons_append,
      skipBlanks_solid (by decide)]
    rfl

/-- The text of a report, field by field. -/
theorem toList_jsonReport (findings : Findings) :
    (jsonReport findings).toList =
      '{' :: ("\n  ".toList ++ (quote .safe "unused_intrafaces").toList ++ ':' ::
        (' ' :: ((jsonList findings.declarations).toList ++ ',' ::
          ("\n  ".toList ++ (quote .safe "unused_components").toList ++ ':' ::
            (' ' :: ((jsonList findings.components).toList ++ "\n\x7d\n".toList)))))) := by
  have declarations : (quote .safe "unused_intrafaces").toList =
      "\"unused_intrafaces\"".toList := by decide
  have components : (quote .safe "unused_components").toList =
      "\"unused_components\"".toList := by decide
  rw [declarations, components]
  unfold jsonReport
  simp

/-- The reader finds both lists in the text of a report. -/
theorem readValue_jsonReport
    (findings : Findings) (fuel : Nat)
    (enough : findings.declarations.length + findings.components.length + 6 ≤ fuel) :
    readValue fuel (jsonReport findings).toList =
      some (.object [("unused_intrafaces", strings findings.declarations),
        ("unused_components", strings findings.components)], ['\n']) := by
  obtain ⟨spare, rfl⟩ : ∃ spare, fuel = spare + 4 := Nat.exists_eq_add_of_le' (by omega)
  have second := readField_pair "\n  ".toList (by decide) .safe "unused_components"
    (readValue_jsonList findings.components spare (by omega) "\n\x7d\n".toList)
  have secondClosed : skipBlanks "\n\x7d\n".toList = '}' :: ['\n'] := by decide
  have fields := readFields_last second secondClosed
  have first := readField_pair [] (by decide) .safe "unused_intrafaces"
    (readValue_jsonList findings.declarations (spare + 1) (by omega)
      (',' :: ("\n  ".toList ++ (quote .safe "unused_components").toList ++ ':' ::
        (' ' :: ((jsonList findings.components).toList ++ "\n\x7d\n".toList)))))
  have whole := readFields_next first (skipBlanks_solid (by decide) _) fields
  rw [toList_jsonReport]
  rw [List.nil_append, toList_quote, List.cons_append] at whole
  refine readValue_fields (skipBlanks_solid (by decide) _) ?_ (by decide) whole
  rw [toList_quote, List.append_assoc, skipBlanks_append (by decide), List.cons_append,
    skipBlanks_solid (by decide)]

theorem parse?_encode (lists : Lists) :
    Json.parse? (encode .json lists) =
      some (.object [("unused_intrafaces", strings (lists.declarations.getD [])),
        ("unused_components", strings (lists.components.getD []))]) := by
  let findings := lists.findings
  have layout := congrArg List.length (toList_jsonReport findings)
  have declared := length_le_jsonList findings.declarations
  have components := length_le_jsonList findings.components
  simp only [List.length_cons, List.length_append, String.length_toList]
    at layout declared components
  have read := readValue_jsonReport findings (3 * (jsonReport findings).length + 3) (by omega)
  rw [encode, Json.parse?, read]
  rfl

theorem strings_inj {names others : List String} (same : strings names = strings others) :
    names = others :=
  (List.map_inj_right fun _ _ => Json.string.inj).mp (Json.array.inj same)

/-- The indented report loses nothing. Read back, it is an object with exactly the two fields, each
the list of the names that were reported, in order and with duplicates; a list that was missing is
read as an empty one. So reports are equal only if their lists are. -/
theorem parse?_jsonReport :
    (∀ declarations components : Option (List String),
      Json.parse? (encode .json ⟨declarations, components⟩) =
        some (.object [("unused_intrafaces", strings (declarations.getD [])),
          ("unused_components", strings (components.getD []))])) ∧
    ∀ findings other : Findings, encode .json findings = encode .json other →
      findings.declarations = other.declarations ∧ findings.components = other.components := by
  refine ⟨fun _ _ => parse?_encode _, fun findings other same => ?_⟩
  have read := parse?_encode findings
  rw [same, parse?_encode other] at read
  simp only [Option.getD_some, Option.some.injEq, Json.object.injEq, List.cons.injEq,
    Prod.mk.injEq, true_and, and_true] at read
  obtain ⟨declarations, components⟩ := read
  exact ⟨(strings_inj declarations).symm, (strings_inj components).symm⟩

/-- Names with characters of every class that is escaped, one of them twice, and no components. -/
def escapedNames : Findings :=
  ⟨["\x00\t\n\r\x1f\x7f", "\"\\</>&", "\u2028\u2029", "😀é", "😀é"], []⟩

theorem parse?_jsonReport_escapedNames :
    Json.parse? (encode .json ⟨some escapedNames.declarations, none⟩) =
        some (.object [("unused_intrafaces", strings escapedNames.declarations),
          ("unused_components", .array [])]) ∧
      (Lists.findings ⟨some escapedNames.declarations, none⟩).declarations =
        escapedNames.declarations := by
  obtain ⟨read, lossless⟩ := parse?_jsonReport
  have sameText : encode .json (Lists.findings ⟨some escapedNames.declarations, none⟩) =
      encode .json escapedNames := rfl
  exact ⟨read _ _, (lossless _ _ sameText).1⟩

end Report

end ImportAudit
