import ImportAudit.Index
import ImportAudit.Declaration
import ImportAudit.Proofs.Path.Joining
import ImportAudit.Proofs.Source.Breaks
import ImportAudit.Proofs.Text.Occurrence

/-!
# Names that can be reported

Whatever the source, a declared name is not empty and stays on its line. The name of a component
may be empty, but it has no line break unless the path of its file has one.
-/

namespace ImportAudit

namespace Source

theorem breakFree_of_mem_lines
    {source line : List Char} (member : line ∈ lines source) : '\n' ∉ line ∧ '\r' ∉ line := by
  obtain ⟨feedFree, within⟩ := Text.mem_of_mem_pieces member
  exact ⟨feedFree, fun isReturn => (spelling_unifyBreaks source).return_not_mem (within _ isReturn)⟩

end Source

namespace Declaration

theorem removeMarkers_subset (markers : List Marker) (line : List Char) :
    removeMarkers markers line ⊆ line := by
  unfold removeMarkers
  induction markers generalizing line with
  | nil => exact List.Subset.refl line
  | cons marker others inductionHypothesis =>
    exact List.Subset.trans (inductionHypothesis _) (Text.removeAll_subset _ line)

theorem nameIn_subset (markers : List Marker) (line : List Char) :
    nameIn markers line ⊆ line := by
  intro c member
  have uncut := (List.takeWhile_prefix _).subset ((Text.infix_trimChars _).subset member)
  exact removeMarkers_subset markers line ((List.takeWhile_prefix _).subset uncut)

/-- A declaration stands on a line, and its name is what the line leaves. -/
theorem exists_line_of_mem_inLines
    {file : String} {markers : List Marker} {number : Nat} {lines : List (List Char)}
    {declared : Declaration} (member : declared ∈ inLines file markers number lines) :
    ∃ line ∈ lines, nameIn markers line ≠ [] ∧
      declared.name = String.ofList (nameIn markers line) := by
  induction lines generalizing number with
  | nil => cases member
  | cons line rest inductionHypothesis =>
    have later : declared ∈ inLines file markers (number + 1) rest →
        ∃ line' ∈ line :: rest, nameIn markers line' ≠ [] ∧
          declared.name = String.ofList (nameIn markers line') := by
      intro inRest
      obtain ⟨found, inLines, shape⟩ := inductionHypothesis inRest
      exact ⟨found, List.mem_cons_of_mem line inLines, shape⟩
    rw [inLines] at member
    split at member
    · rename_i name kind here
      rcases List.mem_cons.mp member with rfl | inRest
      · refine ⟨line, List.mem_cons_self, ?_⟩
        unfold inLine? at here
        split at here
        · cases here
        · dsimp only at here
          split at here
          · cases here
          · rename_i nonempty
            cases here
            exact ⟨fun empty => nonempty (List.isEmpty_iff.mpr empty), rfl⟩
      · exact later inRest
    · exact later member

/-- A declared name is not empty and holds no line break, whatever the source. -/
theorem name_of_mem_scan
    {file : String} {markers : List Marker} {source : List Char} {declared : Declaration}
    (member : declared ∈ scan file markers source) :
    declared.name ≠ "" ∧ '\n' ∉ declared.name.toList ∧ '\r' ∉ declared.name.toList := by
  obtain ⟨line, isLine, nonempty, named⟩ := exists_line_of_mem_inLines member
  obtain ⟨feedFree, returnFree⟩ := Source.breakFree_of_mem_lines isLine
  have within := nameIn_subset markers line
  rw [named, String.toList_ofList]
  refine ⟨fun empty => nonempty ?_, fun isFeed => feedFree (within isFeed),
    fun isReturn => returnFree (within isReturn)⟩
  have chars := congrArg String.toList empty
  rwa [String.toList_ofList] at chars

end Declaration

namespace Component

theorem mem_base {path : String} {c : Char} (member : c ∈ (Path.base path).toList) :
    c ∈ path.toList ∨ c = '.' ∨ c = '/' := by
  unfold Path.base at member
  split at member
  · exact Or.inr (Or.inl (by simpa using member))
  · dsimp only at member
    split at member
    · exact Or.inr (Or.inr (by simpa using member))
    · rw [String.toList_ofList] at member
      have inRest := (List.takeWhile_prefix _).subset (List.mem_reverse.mp member)
      have inDropped := List.mem_reverse.mp inRest
      have inReversed := (List.dropWhile_suffix _).subset (List.mem_reverse.mp inDropped)
      exact Or.inl (List.mem_reverse.mp inReversed)

/-- A character of a stem stands in the path of the file. -/
theorem mem_of_mem_stem {file : String} {c : Char} (member : c ∈ (stem file).toList)
    (notSlash : c ≠ '/') : c ∈ file.toList := by
  rw [stem, String.toList_ofList] at member
  have notDot : c ≠ '.' := by simpa using List.mem_takeWhile_imp member
  rcases mem_base ((List.takeWhile_prefix _).subset member) with inPath | dot | slash
  · rw [Text.replaceChar, String.toList_ofList] at inPath
    obtain ⟨original, inFile, replaced⟩ := List.mem_map.mp inPath
    by_cases backslash : original = '\\'
    · rw [if_pos backslash] at replaced
      exact absurd replaced.symm notSlash
    · rw [if_neg backslash] at replaced
      exact replaced ▸ inFile
  · exact absurd dot notDot
  · exact absurd slash notSlash

end Component

end ImportAudit
