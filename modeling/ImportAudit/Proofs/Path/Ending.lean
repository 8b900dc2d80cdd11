import ImportAudit.Path
import ImportAudit.Proofs.Text.Splitting

/-!
# How joined paths end

Cleaning and joining leave the end of a path alone where its last element is a name. So a file
keeps its extension when the path to it is joined to that of a directory.
-/

namespace ImportAudit.Text

theorem endsWith_iff
    {part text : List Char} : endsWith part text = true ↔ ∃ front, text = front ++ part := by
  rw [endsWith, List.isSuffixOf_iff_suffix]
  constructor
  · rintro ⟨front, whole⟩
    exact ⟨front, whole.symm⟩
  · rintro ⟨front, whole⟩
    exact ⟨front, whole.symm⟩

/-- What follows without a separator goes on with the last piece. -/
theorem pieces_append_free
    {separator : Char} {back : List Char} (free : separator ∉ back) (front : List Char) :
    ∃ earlier last, pieces separator (front ++ back) = earlier ++ [last ++ back] := by
  induction front with
  | nil => exact ⟨[], [], by simp [pieces_of_free free]⟩
  | cons head tail inductionHypothesis =>
    obtain ⟨earlier, last, split⟩ := inductionHypothesis
    by_cases isSeparator : head = separator
    · exact ⟨[] :: earlier, last, by simp [pieces, isSeparator, split]⟩
    · cases earlier with
      | nil => exact ⟨[], head :: last, by simp [pieces, isSeparator, split]⟩
      | cons first others =>
        exact ⟨(head :: first) :: others, last, by simp [pieces, isSeparator, split]⟩

end ImportAudit.Text

namespace ImportAudit.Path

/-- An ending that only a name can have: it has no slash and does not end with a dot. -/
structure NameEnding (ending : List Char) : Prop where
  slashFree : '/' ∉ ending
  letterLast : ∃ front c, ending = front ++ [c] ∧ c ≠ '.'

theorem NameEnding.ne_special
    {ending : List Char} (names : NameEnding ending) (front : List Char) :
    String.ofList (front ++ ending) ≠ "" ∧ String.ofList (front ++ ending) ≠ "." ∧
      String.ofList (front ++ ending) ≠ ".." := by
  obtain ⟨stem, c, rfl, notDot⟩ := names.letterLast
  have lastIs : (front ++ (stem ++ [c])).getLast? = some c := by simp
  refine ⟨?_, ?_, ?_⟩
  all_goals
    intro same
    have asLists := congrArg String.toList same
    rw [String.toList_ofList] at asLists
    rw [asLists] at lastIs
    simp at lastIs
  all_goals exact notDot lastIs.symm

section PushElement

variable (rooted : Bool) (reversed : List String)

@[simp]
theorem pushElement_empty : pushElement rooted reversed "" = reversed := rfl

@[simp]
theorem pushElement_here : pushElement rooted reversed "." = reversed := rfl

@[simp]
theorem pushElement_name
    {element : String} (nonempty : element ≠ "") (notHere : element ≠ ".")
    (notUp : element ≠ "..") : pushElement rooted reversed element = element :: reversed := by
  simp [pushElement, nonempty, notHere, notUp]

end PushElement

@[simp]
theorem join_empty_left {file : String} (named : file ≠ "") : join ["", file] = clean file := by
  simp [join, named, String.intercalate_singleton]

@[simp]
theorem join_of_ne_empty {directory file : String} (here : directory ≠ "") (named : file ≠ "") :
    join [directory, file] = clean (directory ++ "/" ++ file) := by
  simp [join, named, here, String.intercalate_cons_cons, String.intercalate_singleton]

/-- Cleaning keeps the ending of a name. -/
theorem endsWith_clean
    {ending : List Char} (names : NameEnding ending) {path : String}
    (ends : Text.endsWith ending path.toList = true) :
    Text.endsWith ending (clean path).toList = true := by
  obtain ⟨front, whole⟩ := Text.endsWith_iff.mp ends
  obtain ⟨earlier, last, split⟩ := Text.pieces_append_free names.slashFree front
  obtain ⟨nonempty, notHere, notUp⟩ := names.ne_special last
  have lastElement : ∃ before, (toClean path).elements =
      before ++ [String.ofList (last ++ ending)] := by
    refine ⟨((earlier.map String.ofList).foldl (pushElement (isRooted path)) []).reverse, ?_⟩
    simp only [toClean, parts, Text.piecesOf, whole, split, List.map_append, List.map_cons,
      List.map_nil, List.foldl_append, List.foldl_cons, List.foldl_nil,
      pushElement_name _ _ nonempty notHere notUp, List.reverse_cons]
  obtain ⟨before, elements⟩ := lastElement
  have joinedEnds : ∃ start, (String.intercalate "/" (toClean path).elements).toList =
      start ++ ending := by
    rw [elements]
    by_cases alone : before = []
    · refine ⟨last, ?_⟩
      rw [alone, List.nil_append, String.intercalate_singleton, String.toList_ofList]
    · refine ⟨(String.intercalate "/" before ++ "/").toList ++ last, ?_⟩
      rw [String.intercalate_append_of_ne_nil alone (by simp), String.intercalate_singleton,
        String.toList_append, String.toList_ofList, List.append_assoc]
  obtain ⟨start, joined⟩ := joinedEnds
  have joinedNonempty : String.intercalate "/" (toClean path).elements ≠ "" := by
    intro empty
    rw [empty] at joined
    obtain ⟨stem, c, rfl, _⟩ := names.letterLast
    simp at joined
  rw [clean, Clean.render]
  by_cases rooted : (toClean path).rooted = true
  · rw [if_pos rooted]
    exact Text.endsWith_iff.mpr ⟨"/".toList ++ start, by
      rw [String.toList_append, joined, List.append_assoc]⟩
  · rw [if_neg rooted, if_neg joinedNonempty]
    exact Text.endsWith_iff.mpr ⟨start, joined⟩

/-- A file keeps the ending of its name when its path is joined to that of a directory. -/
theorem endsWith_join
    {ending : List Char} (names : NameEnding ending) (directory : String) {file : String}
    (ends : Text.endsWith ending file.toList = true) :
    Text.endsWith ending (join [directory, file]).toList = true := by
  obtain ⟨front, whole⟩ := Text.endsWith_iff.mp ends
  have named : file ≠ "" := by
    rintro rfl
    obtain ⟨stem, c, rfl, _⟩ := names.letterLast
    simp at whole
  by_cases here : directory = ""
  · rw [here, join_empty_left named]
    exact endsWith_clean names ends
  · rw [join_of_ne_empty here named]
    refine endsWith_clean names (Text.endsWith_iff.mpr ⟨(directory ++ "/").toList ++ front, ?_⟩)
    rw [String.toList_append, whole, List.append_assoc]

end ImportAudit.Path
