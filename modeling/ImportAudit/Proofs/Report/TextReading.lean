import ImportAudit.Proofs.ReportedNames
import ImportAudit.Report

/-!
# Reading the plain report back

The plain report escapes nothing: a name may be equal to a heading, and the name of a component may
be empty. Still it can be read back. Declared names are not empty, so the first blank line ends
their section, and no name has a line break in it, so every other line is one name.
-/

namespace ImportAudit.Report

open ImportAudit.Usage (Findings)

/-- Findings that a plain report can list: a declared name fills a line of its own, and the name of
a component fills at most one. -/
structure Listable (findings : Findings) : Prop where
  declarations : ∀ name ∈ findings.declarations, name ≠ "" ∧ '\n' ∉ name.toList
  components : ∀ name ∈ findings.components, '\n' ∉ name.toList

/-- The findings of a plain report; a text that is none has no findings. -/
def readText? (text : String) : Option Findings :=
  match Text.piecesOf '\n' text with
  | [] => none
  | heading :: lines =>
    match lines.dropWhile (· != "") with
    | blank :: second :: names =>
      if heading = "Unused intrafaces:" ∧ blank = "" ∧ second = "Unused components:" ∧
          names.getLast? = some "" then
        some ⟨lines.takeWhile (· != ""), names.dropLast⟩
      else none
    | _ => none

/-! ## The lines of a report -/

theorem piecesOf_line {line : String} (free : '\n' ∉ line.toList) (rest : String) :
    Text.piecesOf '\n' (line ++ "\n" ++ rest) = line :: Text.piecesOf '\n' rest := by
  have split : (line ++ "\n" ++ rest).toList = line.toList ++ '\n' :: rest.toList := by simp
  rw [Text.piecesOf, split, Text.pieces_append_separator, Text.pieces_of_free free,
    List.map_append, List.map_singleton, String.ofList_toList]
  rfl

theorem piecesOf_nameLines
    {names : List String} (free : ∀ name ∈ names, '\n' ∉ name.toList) (rest : String) :
    Text.piecesOf '\n' (nameLines names ++ rest) = names ++ Text.piecesOf '\n' rest := by
  induction names with
  | nil => simp [nameLines]
  | cons name others inductionHypothesis =>
    obtain ⟨nameFree, othersFree⟩ := List.forall_mem_cons.mp free
    have lines : nameLines (name :: others) = name ++ "\n" ++ nameLines others := by
      simp [nameLines]
    have sameText : nameLines (name :: others) ++ rest =
        name ++ "\n" ++ (nameLines others ++ rest) := by
      rw [lines, String.append_assoc]
    rw [sameText, piecesOf_line nameFree, inductionHypothesis othersFree, List.cons_append]

theorem piecesOf_inj
    {text other : String} (same : Text.piecesOf '\n' text = Text.piecesOf '\n' other) :
    text = other := by
  have pieces : Text.pieces '\n' text.toList = Text.pieces '\n' other.toList :=
    List.map_injective_iff.mpr (fun _ _ => String.ofList_inj.mp) same
  have joined := congrArg (['\n'].intercalate) pieces
  rw [Text.intercalate_pieces, Text.intercalate_pieces] at joined
  exact String.toList_inj.mp joined

theorem piecesOf_textReport {findings : Findings} (listable : Listable findings) :
    Text.piecesOf '\n' (textReport findings) =
      "Unused intrafaces:" :: (findings.declarations ++
        "" :: "Unused components:" :: (findings.components ++ [""])) := by
  have layout : textReport findings =
      "Unused intrafaces:" ++ "\n" ++ (nameLines findings.declarations ++
        ("" ++ "\n" ++ ("Unused components:" ++ "\n" ++
          (nameLines findings.components ++ "")))) := by
    unfold textReport
    apply String.toList_inj.mp
    simp
  have ended : Text.piecesOf '\n' "" = [""] := by simp [Text.piecesOf, Text.pieces]
  rw [layout, piecesOf_line (by decide),
    piecesOf_nameLines fun name member => (listable.declarations name member).2,
    piecesOf_line (by decide), piecesOf_line (by decide), piecesOf_nameLines listable.components,
    ended]

/-! ## Reading -/

theorem readText?_textReport {findings : Findings} (listable : Listable findings) :
    readText? (textReport findings) = some findings := by
  have named : ∀ name ∈ findings.declarations, (name != "") = true := fun name member => by
    simpa using (listable.declarations name member).1
  have blank : ("" != "") = false := rfl
  simp only [readText?, piecesOf_textReport listable]
  rw [List.dropWhile_append_of_pos named, List.dropWhile_cons_of_neg (by simp),
    List.takeWhile_append_of_pos named, List.takeWhile_cons_of_neg (by simp)]
  simp

/-- Only plain reports are read. -/
theorem eq_textReport_of_readText?
    {text : String} {findings : Findings} (read : readText? text = some findings) :
    Listable findings ∧ text = textReport findings := by
  have free : ∀ line ∈ Text.piecesOf '\n' text, '\n' ∉ line.toList := by
    intro line member
    obtain ⟨piece, isPiece, rfl⟩ := List.mem_map.mp member
    rw [String.toList_ofList]
    exact (Text.mem_of_mem_pieces isPiece).1
  unfold readText? at read
  split at read
  · cases read
  · rename_i heading lines pieces
    split at read
    · rename_i blank second names rest
      split at read
      · rename_i shape
        obtain ⟨rfl, rfl, rfl, last⟩ := shape
        cases read
        have whole : lines = lines.takeWhile (· != "") ++
            "" :: "Unused components:" :: (names.dropLast ++ [""]) := by
          rw [List.dropLast_append_getLast? "" last, ← rest, List.takeWhile_append_dropWhile]
        have inLines : ∀ line ∈ lines, '\n' ∉ line.toList := by
          rw [pieces] at free
          exact (List.forall_mem_cons.mp free).2
        have listable : Listable ⟨lines.takeWhile (· != ""), names.dropLast⟩ := by
          refine ⟨fun name member => ⟨?_, ?_⟩, fun name member => ?_⟩
          · simpa using List.mem_takeWhile_imp member
          · exact inLines name ((List.takeWhile_subset _) member)
          · refine inLines name ?_
            rw [whole]
            simp [member]
        refine ⟨listable, piecesOf_inj ?_⟩
        rw [pieces, piecesOf_textReport listable, ← whole]
      · cases read
    · cases read

/-- Plain reports can be read back. What is read from the report of findings is the findings, and
nothing but a report is read, so the reports of two findings are equal only if their lists are.
Findings of declarations that some source has, and of component files without line breaks in their
paths, are findings that a report can list. -/
theorem textReport_readable :
    (∀ findings, Listable findings → readText? (textReport findings) = some findings) ∧
    (∀ text findings, readText? text = some findings →
      Listable findings ∧ text = textReport findings) ∧
    (∀ findings other, Listable findings → Listable other →
      textReport findings = textReport other →
        findings.declarations = other.declarations ∧ findings.components = other.components) ∧
    (∀ findings : Findings,
      (∀ name ∈ findings.declarations, ∃ file markers source,
        ∃ declared ∈ Declaration.scan file markers source, declared.name = name) →
      (∀ name ∈ findings.components, ∃ file,
        '\n' ∉ file.toList ∧ Component.stem file = name) →
      Listable findings) := by
  refine ⟨fun _ => readText?_textReport, fun _ _ => eq_textReport_of_readText?, ?_, ?_⟩
  · intro findings other listable otherListable same
    have read := readText?_textReport listable
    rw [same, readText?_textReport otherListable] at read
    cases read
    exact ⟨rfl, rfl⟩
  · intro findings declared stems
    refine ⟨fun name member => ?_, fun name member => ?_⟩
    · obtain ⟨file, markers, source, declaration, found, rfl⟩ := declared name member
      obtain ⟨nonempty, feedFree, _⟩ := Declaration.name_of_mem_scan found
      exact ⟨nonempty, feedFree⟩
    · obtain ⟨file, breakFree, rfl⟩ := stems name member
      exact fun isFeed => breakFree (Component.mem_of_mem_stem isFeed (by decide))

/-- Findings whose names look like the parts of a report. -/
def headedNames : Findings :=
  ⟨["Unused components:", "A", "A"], ["", "Unused components:", "", ""]⟩

theorem listable_headedNames : Listable headedNames := by
  refine ⟨?_, ?_⟩
  · simp [headedNames]
  · simp [headedNames]

theorem textReport_readable_headedNames :
    Listable headedNames ∧ readText? (textReport headedNames) = some headedNames := by
  obtain ⟨read, _⟩ := textReport_readable
  exact ⟨listable_headedNames, read headedNames listable_headedNames⟩

end ImportAudit.Report
