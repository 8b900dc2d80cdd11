import ImportAudit.Proofs.ReportedNames
import ImportAudit.Proofs.Source.Breaks

/-!
# Line scans of joined sources

Where two sources are joined by a line feed, their lines stand one after the other. So the
declarations of the whole are those of its parts, with the lines of the second part counted on; and
the import specifiers are those of its parts, unless the scan for them ends within the first.
-/

namespace ImportAudit

namespace Source

/-- The lines of two sources that a line feed joins. The first one must not end with a carriage
return, which would be one break with the line feed. -/
theorem lines_append
    {first : List Char} (apart : first.getLast? ≠ some '\r') (second : List Char) :
    lines (first ++ '\n' :: second) = lines first ++ lines second := by
  have spelling : Spelling (first ++ '\n' :: second)
      (unifyBreaks first ++ '\n' :: unifyBreaks second) :=
    (spelling_unifyBreaks first).append (Spelling.feed (spelling_unifyBreaks second))
      fun last => absurd last apart
  rw [lines, lines, lines, spelling.unifyBreaks_eq, Text.pieces_append_separator]

end Source

/-! ## Declarations -/

namespace Declaration

/-- The declaration so many lines further down. -/
def later (count : Nat) (declaration : Declaration) : Declaration :=
  { declaration with line := declaration.line + count }

section Lines

variable (file : String) (markers : List Marker)

theorem inLines_append (number : Nat) (front rest : List (List Char)) :
    inLines file markers number (front ++ rest) =
      inLines file markers number front ++
        inLines file markers (number + front.length) rest := by
  induction front generalizing number with
  | nil => rfl
  | cons line others inductionHypothesis =>
    have further := inductionHypothesis (number + 1)
    have counted : number + 1 + others.length = number + (line :: others).length := by
      rw [List.length_cons]
      omega
    rw [counted] at further
    rw [List.cons_append, inLines, inLines, further]
    cases inLine? markers line with
    | none => rfl
    | some declared => rfl

/-- Declarations further down differ only by their lines. -/
theorem inLines_later (number count : Nat) (lines : List (List Char)) :
    inLines file markers (number + count) lines =
      (inLines file markers number lines).map (later count) := by
  induction lines generalizing number with
  | nil => rfl
  | cons line others inductionHypothesis =>
    have further := inductionHypothesis (number + 1)
    rw [Nat.add_right_comm] at further
    rw [inLines, inLines, further]
    cases inLine? markers line with
    | none => rfl
    | some declared => rfl

variable {file markers}

/-- A declaration stands on one of the lines. -/
theorem line_of_mem_inLines
    {number : Nat} {lines : List (List Char)} {declaration : Declaration}
    (member : declaration ∈ inLines file markers number lines) :
    number ≤ declaration.line ∧ declaration.line < number + lines.length := by
  induction lines generalizing number with
  | nil => cases member
  | cons line rest inductionHypothesis =>
    have later : declaration ∈ inLines file markers (number + 1) rest →
        number ≤ declaration.line ∧ declaration.line < number + (line :: rest).length := by
      intro inRest
      obtain ⟨notBefore, notBehind⟩ := inductionHypothesis inRest
      rw [List.length_cons]
      omega
    rw [inLines] at member
    split at member
    · rcases List.mem_cons.mp member with rfl | inRest
      · exact ⟨Nat.le_refl number, Nat.lt_add_of_pos_right (Nat.succ_pos rest.length)⟩
      · exact later inRest
    · exact later member

variable (file markers)

/-- Each line declares one name at most, so the lines of declarations increase. -/
theorem increasing_inLines (number : Nat) (lines : List (List Char)) :
    (inLines file markers number lines).Pairwise (·.line < ·.line) := by
  induction lines generalizing number with
  | nil => exact List.Pairwise.nil
  | cons line rest inductionHypothesis =>
    rw [inLines]
    split
    · refine List.pairwise_cons.mpr ⟨fun declaration inRest => ?_, inductionHypothesis (number + 1)⟩
      exact (line_of_mem_inLines inRest).1
    · exact inductionHypothesis (number + 1)

end Lines

theorem scan_append
    (file : String) (markers : List Marker) {first : List Char}
    (apart : first.getLast? ≠ some '\r') (second : List Char) :
    scan file markers (first ++ '\n' :: second) =
      scan file markers first ++
        (scan file markers second).map (later (Source.lines first).length) := by
  rw [scan, scan, scan, Source.lines_append apart, inLines_append, inLines_later]

/-! ## Names -/

theorem sign_not_mem_nameIn (markers : List Marker) (line : List Char) :
    '{' ∉ nameIn markers line ∧ '=' ∉ nameIn markers line := by
  have uncut := (Text.infix_trimChars
    (((removeMarkers markers line).takeWhile (· != '{')).takeWhile (· != '='))).subset
  constructor
  · intro brace
    have inFront := (List.takeWhile_prefix _).subset (uncut brace)
    exact absurd (List.mem_takeWhile_imp inFront) (by decide)
  · intro equals
    exact absurd (List.mem_takeWhile_imp (uncut equals)) (by decide)

/-- What a declared name is like, whatever the source. -/
structure NeatName (name : String) : Prop where
  trimmed : Text.Trimmed name.toList
  braceFree : '{' ∉ name.toList
  equalsFree : '=' ∉ name.toList
  feedFree : '\n' ∉ name.toList
  returnFree : '\r' ∉ name.toList

theorem neatName_of_mem_scan
    {file : String} {markers : List Marker} {source : List Char} {declared : Declaration}
    (member : declared ∈ scan file markers source) : NeatName declared.name := by
  obtain ⟨line, _, nonempty, named⟩ := exists_line_of_mem_inLines member
  obtain ⟨_, feedFree, returnFree⟩ := name_of_mem_scan member
  obtain ⟨braceFree, equalsFree⟩ := sign_not_mem_nameIn markers line
  have chars : declared.name.toList = nameIn markers line := by
    rw [named, String.toList_ofList]
  refine ⟨?_, ?_, ?_, feedFree, returnFree⟩
  · rw [chars]
    exact Text.trimmed_trimChars nonempty
  · rwa [chars]
  · rwa [chars]

end Declaration

/-! ## Import specifiers -/

namespace Import

/-- Behind a line that starts with `const` no line is looked at. -/
theorem headerLines_append_of_ends
    {front : List (List Char)} (ends : ∃ line ∈ front, "const".toList <+: line)
    (rest : List (List Char)) : headerLines (front ++ rest) = headerLines front := by
  obtain ⟨line, member, isConst⟩ := ends
  have stops : (front.takeWhile fun line => !("const".toList.isPrefixOf line)).length ≠
      front.length := by
    intro whole
    have all := List.takeWhile_eq_self_iff.mp
      ((List.takeWhile_prefix _).eq_of_length whole) line member
    rw [List.isPrefixOf_iff_prefix.mpr isConst] at all
    cases all
  rw [headerLines, headerLines, List.takeWhile_append, if_neg stops]

theorem headerLines_append
    {front : List (List Char)} (goesOn : ¬ ∃ line ∈ front, "const".toList <+: line)
    (rest : List (List Char)) :
    headerLines (front ++ rest) = headerLines front ++ headerLines rest := by
  have passes : ∀ line ∈ front, (!("const".toList.isPrefixOf line)) = true := by
    intro line member
    rw [Bool.not_eq_true', ← Bool.not_eq_true, List.isPrefixOf_iff_prefix]
    exact fun isConst => goesOn ⟨line, member, isConst⟩
  rw [headerLines, headerLines, headerLines, List.takeWhile_append_of_pos passes,
    List.takeWhile_eq_self_iff.mpr passes]

theorem scanLines_append_of_ends
    {first : List Char} (apart : first.getLast? ≠ some '\r')
    (ends : ∃ line ∈ Source.lines first, "const".toList <+: line) (second : List Char) :
    scanLines (first ++ '\n' :: second) = scanLines first := by
  rw [scanLines, scanLines, Source.lines_append apart, headerLines_append_of_ends ends]

theorem scanLines_append
    {first : List Char} (apart : first.getLast? ≠ some '\r')
    (goesOn : ¬ ∃ line ∈ Source.lines first, "const".toList <+: line) (second : List Char) :
    scanLines (first ++ '\n' :: second) = scanLines first ++ scanLines second := by
  rw [scanLines, scanLines, scanLines, Source.lines_append apart, headerLines_append goesOn,
    List.filter_append, List.flatMap_append]

end Import

/-! ## Both scans -/

/-- A source that a line feed joins from two parts, the first of which does not end with a carriage
return, declares what the first part declares and then what the second part does, as many lines
further down as the first part has. Its specifiers by line are those of the first part alone if one
of its lines starts with `const`, and else those of both parts. So the declarations of any source
stand on increasing lines, each on one of the lines, and their names are trimmed, not empty, and
free of the signs that cut them and of line breaks. -/
theorem lineScans_joined (file : String) (markers : List Marker) :
    (∀ first second : String, first.toList.getLast? ≠ some '\r' →
      Declaration.scan file markers (first ++ "\n" ++ second).toList =
          Declaration.scan file markers first.toList ++
            (Declaration.scan file markers second.toList).map
              (Declaration.later (Source.lines first.toList).length) ∧
        ((∃ line ∈ Source.lines first.toList, "const".toList <+: line) →
          importNames .line (first ++ "\n" ++ second) = importNames .line first) ∧
        ((¬ ∃ line ∈ Source.lines first.toList, "const".toList <+: line) →
          importNames .line (first ++ "\n" ++ second) =
            importNames .line first ++ importNames .line second)) ∧
      ∀ source : List Char,
        (Declaration.scan file markers source).Pairwise (·.line < ·.line) ∧
          ∀ declared ∈ Declaration.scan file markers source,
            1 ≤ declared.line ∧ declared.line ≤ (Source.lines source).length ∧
              Declaration.NeatName declared.name := by
  refine ⟨fun first second apart => ?_, fun source => ⟨?_, fun declared member => ?_⟩⟩
  · have joined : (first ++ "\n" ++ second).toList = first.toList ++ '\n' :: second.toList := by
      simp
    refine ⟨?_, fun ends => ?_, fun goesOn => ?_⟩
    · rw [joined]
      exact Declaration.scan_append file markers apart second.toList
    · simp only [importNames, joined, Import.scanLines_append_of_ends apart ends]
    · simp only [importNames, joined, Import.scanLines_append apart goesOn, List.map_append]
  · exact Declaration.increasing_inLines file markers 1 (Source.lines source)
  · obtain ⟨notBefore, notBehind⟩ := Declaration.line_of_mem_inLines member
    exact ⟨notBefore, by omega, Declaration.neatName_of_mem_scan member⟩

def openPart : String :=
  "import { A } from 'm'\r\nexport type X = 1"

/-- A constant, behind which no import counts, and a declaration. -/
def closedPart : String :=
  "const a = 1\rimport { B } from 'n'\nexport type Y = 2"

theorem lineScans_joined_parts :
    openPart.toList.getLast? ≠ some '\r' ∧ closedPart.toList.getLast? ≠ some '\r' ∧
      Declaration.scan "a.ts" Marker.defaults (openPart ++ "\n" ++ closedPart).toList =
        [⟨"a.ts", "X", "type", 2⟩, ⟨"a.ts", "Y", "type", 5⟩] ∧
      importNames .line (openPart ++ "\n" ++ openPart) = ["A", "A"] ∧
      importNames .line (closedPart ++ "\n" ++ openPart) = [] ∧
      Declaration.NeatName "Y" := by
  have openApart : openPart.toList.getLast? ≠ some '\r' := by decide
  have closedApart : closedPart.toList.getLast? ≠ some '\r' := by decide
  obtain ⟨joined, declarations⟩ := lineScans_joined "a.ts" Marker.defaults
  have declared :
      Declaration.scan "a.ts" Marker.defaults (openPart ++ "\n" ++ closedPart).toList =
        [⟨"a.ts", "X", "type", 2⟩, ⟨"a.ts", "Y", "type", 5⟩] := by
    rw [(joined openPart closedPart openApart).1]
    decide +kernel
  refine ⟨openApart, closedApart, declared, ?_, ?_, ?_⟩
  · rw [(joined openPart openPart openApart).2.2 (by decide +kernel)]
    decide +kernel
  · rw [(joined closedPart openPart closedApart).2.1 (by decide +kernel)]
    decide +kernel
  · have member : (⟨"a.ts", "Y", "type", 5⟩ : Declaration) ∈
        Declaration.scan "a.ts" Marker.defaults (openPart ++ "\n" ++ closedPart).toList := by
      rw [declared]
      exact List.mem_cons_of_mem _ List.mem_cons_self
    exact ((declarations _).2 _ member).2.2

end ImportAudit
