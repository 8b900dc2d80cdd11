import ImportAudit.Extraction
import ImportAudit.Proofs.Import.Header

/-!
# Declaring lines

A line that starts like a plain declaration declares the name that stands there, whatever follows:
neither default marker can reach over the name and the sign after it. The names that a source
declares are those of its lines, so each such line counts once.
-/

namespace ImportAudit.Declaration

open ImportAudit.Text
open ImportAudit.Import.Header (Name)

/-- The name that a line declares by the default markers. -/
def declaredName? (line : List Char) : Option String :=
  (inLine? Marker.defaults line).map (·.1)

/-- A line that starts with a plain declaration of the name. -/
def opensWith (name : Name) (line : List Char) : Bool :=
  ("export type ".toList ++ name.text ++ " = ".toList).isPrefixOf line ||
    ("export intraface ".toList ++ name.text ++ " \x7b".toList).isPrefixOf line

/-- A line that declares the name but starts otherwise. -/
def declaresOtherwise (name : Name) (line : List Char) : Bool :=
  !opensWith name line && declaredName? line == some name.string

/-! ## Markers and names -/

/-- An occurrence that starts with a character outside the front lies behind it. -/
theorem infix_of_front_free
    {c : Char} {part front text : List Char} (absent : c ∉ front)
    (present : c :: part <:+: front ++ text) : c :: part <:+: text := by
  induction front with
  | nil => exact present
  | cons head tail inductionHypothesis =>
    rw [List.cons_append, List.infix_cons_iff] at present
    rcases present with starts | later
    · have same : c = head := (List.cons_prefix_cons.mp starts).1
      exact absurd (same ▸ List.mem_cons_self) absent
    · exact inductionHypothesis (fun member => absent (List.mem_cons_of_mem head member)) later

/-- What may follow a name so that no default marker reaches from the name into it. -/
structure Apart (ending : List Char) : Prop where
  intraface : ¬ " intraface".toList <:+: ending
  type : ¬ " type".toList <:+: ending
  ends : ∃ front sign, ending = front ++ [sign] ∧
    sign ∉ "export intraface".toList ∧ sign ∉ "export type".toList

theorem apart_sign
    {sign : Char} (intraface : sign ∉ "export intraface".toList)
    (type : sign ∉ "export type".toList) : Apart [' ', sign] where
  intraface present := absurd present.length_le (by simp)
  type present := absurd present.length_le (by simp)
  ends := ⟨[' '], sign, rfl, intraface, type⟩

/-- No marker occurs in a name with a space before it: the name has no space, and what follows it
is not the rest of a marker. -/
theorem clear_name
    (first : Char) (front back : List Char) (begins : first ≠ ' ') {ending rest : List Char}
    {sign : Char} (apart : ¬ ' ' :: back <:+: ending) (shape : ending = rest ++ [sign])
    (signFree : sign ∉ first :: front ++ ' ' :: back) (name : Name) :
    Clear (first :: front ++ ' ' :: back) (' ' :: (name.text ++ ending)) := by
  refine ⟨fun present => ?_, fun c last => ?_⟩
  · rw [List.infix_cons_iff] at present
    rcases present with starts | later
    · exact begins (List.cons_prefix_cons.mp starts).1
    · have tailPresent : ' ' :: back <:+: name.text ++ ending :=
        (List.suffix_append (first :: front) (' ' :: back)).isInfix.trans later
      exact apart (infix_of_front_free (name.not_mem (by decide)) tailPresent)
  · rw [shape, ← List.append_assoc, ← List.cons_append, List.getLast?_append] at last
    have same : sign = c := by simpa using last
    rw [← same]
    exact signFree

section Ending

variable {ending : List Char} (apart : Apart ending) (name : Name)
include apart

theorem intraface_clear : Clear "export intraface".toList (' ' :: (name.text ++ ending)) := by
  obtain ⟨rest, sign, shape, signFree, _⟩ := apart.ends
  exact clear_name 'e' "xport".toList "intraface".toList (by decide) apart.intraface shape signFree
    name

theorem type_clear : Clear "export type".toList (' ' :: (name.text ++ ending)) := by
  obtain ⟨rest, sign, shape, _, signFree⟩ := apart.ends
  exact clear_name 'e' "xport".toList "type".toList (by decide) apart.type shape signFree name

theorem intraface_clear_type :
    Clear "export intraface".toList ("export type".toList ++ ' ' :: (name.text ++ ending)) := by
  have clear := intraface_clear apart name
  refine ⟨fun present => ?_, fun c last => ?_⟩
  -- The marker starts at none of the characters of the other one.
  · simp [List.infix_cons_iff, List.cons_prefix_cons] at present
    exact clear.absent (List.infix_cons present)
  · rw [List.getLast?_append_of_ne_nil _ (List.cons_ne_nil _ _)] at last
    exact clear.ends c last

end Ending

/-! ## Declaring lines -/

theorem removeMarkers_defaults (line : List Char) :
    removeMarkers Marker.defaults line =
      removeAll "export type".toList (removeAll "export intraface".toList line) := rfl

/-- Only the marker goes from the start of a line, whichever it is. -/
theorem removeMarkers_marked
    {marker : Marker} (member : marker ∈ Marker.defaults) {ending : List Char}
    (apart : Apart ending) (name : Name) (rest : List Char) :
    removeMarkers Marker.defaults (marker.token.toList ++ (' ' :: (name.text ++ ending)) ++ rest) =
      ' ' :: (name.text ++ ending) ++ removeMarkers Marker.defaults rest := by
  rw [removeMarkers_defaults, removeMarkers_defaults]
  rcases List.mem_pair.mp member with rfl | rfl
  · rw [List.append_assoc, removeAll_self (by decide),
      removeAll_append (List.prefix_refl _) (intraface_clear apart name),
      removeAll_append (List.prefix_refl _) (type_clear apart name)]
  · rw [removeAll_append (List.prefix_refl _) (intraface_clear_type apart name),
      List.append_assoc, removeAll_self (by decide),
      removeAll_append (List.prefix_refl _) (type_clear apart name)]

/-- A text without the two signs that open a body. -/
def isSignFree (text : List Char) : Bool :=
  text.all fun c => c != '{' && c != '='

@[simp]
theorem isSignFree_append (front back : List Char) :
    isSignFree (front ++ back) = (isSignFree front && isSignFree back) :=
  List.all_append

/-- A line is cut at the first of the two signs. -/
theorem cut_sign
    {kept : List Char} (signFree : isSignFree kept = true) {sign : Char}
    (ends : sign = '=' ∨ sign = '{') (left : List Char) :
    ((kept ++ sign :: left).takeWhile (· != '{')).takeWhile (· != '=') = kept := by
  simp only [isSignFree, List.all_eq_true, Bool.and_eq_true] at signFree
  have braceFree : ∀ c ∈ kept, (c != '{') = true := fun c member => (signFree c member).1
  have equalsFree : ∀ c ∈ kept, (c != '=') = true := fun c member => (signFree c member).2
  rcases ends with rfl | rfl
  · rw [List.takeWhile_append_of_pos braceFree, List.takeWhile_cons_of_pos (by decide),
      takeWhile_append_stop (by decide), List.takeWhile_eq_self_iff.mpr equalsFree]
  · rw [takeWhile_append_stop (by decide), List.takeWhile_eq_self_iff.mpr braceFree,
      List.takeWhile_eq_self_iff.mpr equalsFree]

@[simp]
theorem isSignFree_name (name : Name) : isSignFree name.text = true := by
  simp only [isSignFree, List.all_eq_true, Bool.and_eq_true, bne_iff_ne]
  intro c member
  refine ⟨?_, ?_⟩
  · rintro rfl
    exact name.not_mem (by decide) member
  · rintro rfl
    exact name.not_mem (by decide) member

theorem name_of_left
    (name : Name) {sign : Char} (ends : sign = '=' ∨ sign = '{') (left : List Char) :
    trimChars (((' ' :: (name.text ++ [' ', sign]) ++ left).takeWhile (· != '{')).takeWhile
      (· != '=')) = name.text := by
  have shape : ' ' :: (name.text ++ [' ', sign]) ++ left =
      ([' '] ++ name.text ++ [' ']) ++ sign :: left := by
    simp
  have signFree : isSignFree ([' '] ++ name.text ++ [' ']) = true := by
    rw [isSignFree_append, isSignFree_append, isSignFree_name]
    decide
  have spaces : ∀ c ∈ [' '], isSpace c = true := by simp [isSpace]
  rw [shape, cut_sign signFree ends, trimChars_padded spaces spaces name.trimmed]

theorem exists_kind
    {marker : Marker} (member : marker ∈ Marker.defaults) {line : List Char}
    (starts : marker.token.toList <+: line) : ∃ kind, kindOf? Marker.defaults line = some kind := by
  have found : (Marker.defaults.find? fun marker =>
      !marker.token.isEmpty && occurs marker.token.toList line).isSome = true := by
    refine List.find?_isSome.mpr ⟨marker, member, ?_⟩
    have nonempty : ∀ marker ∈ Marker.defaults, marker.token.isEmpty = false := by decide
    rw [nonempty marker member, occurs_iff.mpr starts.isInfix]
    rfl
  obtain ⟨first, isFirst⟩ := Option.isSome_iff_exists.mp found
  exact ⟨first.kind, by rw [kindOf?, isFirst]; rfl⟩

/-- What a line declares that starts with a marker and is left with a name. -/
theorem declaredName?_of_nameIn
    {marker : Marker} (member : marker ∈ Marker.defaults) {line text : List Char}
    (starts : marker.token.toList <+: line) (isName : nameIn Marker.defaults line = text)
    (nonempty : text ≠ []) : declaredName? line = some (String.ofList text) := by
  obtain ⟨kind, isKind⟩ := exists_kind member starts
  have notEmpty : text.isEmpty = false := by simpa using nonempty
  simp [declaredName?, inLine?, isKind, isName, notEmpty]

/-- A line that starts with a marker, a name and a sign declares that name. -/
theorem declaredName?_marked
    {marker : Marker} (member : marker ∈ Marker.defaults) (name : Name) {sign : Char}
    (ends : sign = '=' ∨ sign = '{') (rest : List Char) :
    declaredName? (marker.token.toList ++ (' ' :: (name.text ++ [' ', sign])) ++ rest) =
      some name.string := by
  have apart : Apart [' ', sign] := by
    rcases ends with rfl | rfl
    · exact apart_sign (by decide) (by decide)
    · exact apart_sign (by decide) (by decide)
  refine declaredName?_of_nameIn member ?_ ?_ name.ne_nil
  · rw [List.append_assoc]
    exact List.prefix_append _ _
  · rw [nameIn, removeMarkers_marked member apart, name_of_left name ends]

/-- A line that starts with a plain declaration declares its name. -/
theorem declaredName?_of_opensWith
    {name : Name} {line : List Char} (opens : opensWith name line = true) :
    declaredName? line = some name.string := by
  rw [opensWith, Bool.or_eq_true, List.isPrefixOf_iff_prefix, List.isPrefixOf_iff_prefix] at opens
  rcases opens with ⟨rest, whole⟩ | ⟨rest, whole⟩
  · have member : ⟨"export type", "type"⟩ ∈ Marker.defaults := by decide
    have shape : line =
        "export type".toList ++ (' ' :: (name.text ++ [' ', '='])) ++ (' ' :: rest) := by
      rw [← whole]
      simp
    rw [shape]
    exact declaredName?_marked member name (Or.inl rfl) (' ' :: rest)
  · have member : ⟨"export intraface", "interface"⟩ ∈ Marker.defaults := by decide
    have shape : line =
        "export intraface".toList ++ (' ' :: (name.text ++ [' ', '{'])) ++ rest := by
      rw [← whole]
      simp
    rw [shape]
    exact declaredName?_marked member name (Or.inr rfl) rest

/-! ## The names of a source -/

theorem inLines_names (file : String) (number : Nat) (lines : List (List Char)) :
    (inLines file Marker.defaults number lines).map (·.name) = lines.filterMap declaredName? := by
  induction lines generalizing number with
  | nil => rfl
  | cons line rest inductionHypothesis =>
    cases declared : inLine? Marker.defaults line with
    | none => simp [inLines, declared, declaredName?, inductionHypothesis]
    | some found => simp [inLines, declared, declaredName?, inductionHypothesis]

/-- A source declares a name once for each line that starts with a plain declaration of it, and
once for each other line that declares it. -/
theorem count_declared (name : Name) (lines : List (List Char)) :
    (lines.filterMap declaredName?).count name.string =
      lines.countP (opensWith name) + lines.countP (declaresOtherwise name) := by
  induction lines with
  | nil => rfl
  | cons line rest inductionHypothesis =>
    by_cases opens : opensWith name line = true
    · have declared := declaredName?_of_opensWith opens
      rw [List.filterMap_cons_some declared, List.count_cons_self, inductionHypothesis,
        List.countP_cons_of_pos opens, List.countP_cons_of_neg (by simp [declaresOtherwise, opens])]
      omega
    · rw [List.countP_cons_of_neg opens]
      by_cases declared : declaredName? line = some name.string
      · rw [List.filterMap_cons_some declared, List.count_cons_self, inductionHypothesis,
          List.countP_cons_of_pos (by simp [declaresOtherwise, opens, declared])]
        omega
      · have notHere : ((line :: rest).filterMap declaredName?).count name.string =
            (rest.filterMap declaredName?).count name.string := by
          cases found : declaredName? line with
          | none => rw [List.filterMap_cons_none found]
          | some other =>
            have differs : other ≠ name.string := by
              rintro rfl
              exact declared found
            rw [List.filterMap_cons_some found, List.count_cons_of_ne differs]
        rw [notHere, inductionHypothesis,
          List.countP_cons_of_neg (by simp [declaresOtherwise, declared])]

end ImportAudit.Declaration
